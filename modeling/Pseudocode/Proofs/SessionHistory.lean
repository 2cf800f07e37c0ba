import Mathlib.Data.List.DropRight
import Pseudocode.Report.Compose
import Pseudocode.Session

/-!
# The history of a session

A session is a window that slides over the errors it sees. However events come and the history is
cleared in between, the session has kept the last errors since it was last cleared, as many as its
limit allows.

* `Session.Action`             what is done with a session
* `Session.errorsSinceClear`   the errors that a session has to remember, however many
* `Session.Shows`              the history is a window over errors
* `Session.history_slides`     what a session has kept, whatever has been done with it
-/

namespace Pseudocode

/-- The report of an error. -/
def Event.report? : Event → Option Report
  | .error report => some report
  | _ => none

namespace Session

/-! ## Actions -/

/-- Something that is done with a session. -/
inductive Action where
  | observe (event : Event)
  | clear

/-- Does something with a session. -/
def perform (s : Session) : Action → Session
  | .observe event => s.observe event
  | .clear => s.clear

/-- Does one thing after the other with a session. -/
def performAll (s : Session) (actions : List Action) : Session := actions.foldl perform s

/-- The event that is seen in an action. -/
def Action.event? : Action → Option Event
  | .observe event => some event
  | .clear => none

/-- The errors that are seen behind the last place where the history is cleared. -/
def errorsSinceClear (actions : List Action) : List Report :=
  ((actions.rtakeWhile fun action => action.event?.isSome).filterMap Action.event?).filterMap
    Event.report?

variable {s : Session} {size : Nat} {errors : List Report}

theorem performAll_concat (s : Session) (actions : List Action) (action : Action) :
    s.performAll (actions ++ [action]) = (s.performAll actions).perform action :=
  List.foldl_concat perform s action actions

theorem errorsSinceClear_observe (actions : List Action) (event : Event) :
    errorsSinceClear (actions ++ [.observe event]) =
      errorsSinceClear actions ++ event.report?.toList := by
  rw [errorsSinceClear, List.rtakeWhile_concat_pos _ _ _ rfl, List.filterMap_append,
    List.filterMap_append]
  cases event <;> rfl

theorem errorsSinceClear_clear (actions : List Action) :
    errorsSinceClear (actions ++ [.clear]) = [] := by
  rw [errorsSinceClear, List.rtakeWhile_concat_neg _ _ _ Bool.false_ne_true,
    List.filterMap_nil, List.filterMap_nil]

/-! ## Windows -/

/-- The session keeps `size` errors, and has kept the last ones of all the errors that it should
    remember. -/
structure Shows (s : Session) (size : Nat) (errors : List Report) : Prop where
  limit_eq : s.limit = size
  history_eq : s.history = errors.rtake size

theorem shows_withLimit (limit : Nat) : (withLimit limit).Shows (max limit 1) [] :=
  ⟨rfl, (List.rtake_nil _).symm⟩

/-- A window that is full has as many errors as it may, so it is enough to compare for equality. -/
theorem makeRoom_rtake (errors : List Report) (n : Nat) :
    (if (errors.rtake (n + 1)).length = n + 1 then (errors.rtake (n + 1)).tail
      else errors.rtake (n + 1)) = errors.rtake n := by
  simp only [List.rtake, List.length_drop, List.tail_drop]
  by_cases hfull : n + 1 ≤ errors.length
  · -- the oldest error makes room
    have hlength : errors.length - (errors.length - (n + 1)) = n + 1 := Nat.sub_sub_self hfull
    have hnext : errors.length - (n + 1) + 1 = errors.length - n := by omega
    rw [if_pos hlength, hnext]
  · -- everything is still there, and there is room
    have hlength : errors.length - (errors.length - (n + 1)) ≠ n + 1 := by omega
    have hall : errors.length - (n + 1) = errors.length - n := by omega
    rw [if_neg hlength, hall]

/-- An error moves the window on by one, if there is room for an error at all. -/
theorem Shows.observe_error (h : s.Shows size errors) (hsize : 0 < size) (report : Report) :
    (s.observe (.error report)).Shows size (errors ++ [report]) := by
  obtain ⟨n, rfl⟩ := Nat.exists_eq_add_one.2 hsize
  refine ⟨h.limit_eq, ?_⟩
  rw [observe, h.limit_eq, h.history_eq, List.rtake_concat_succ]
  exact congrArg (· ++ [report]) (makeRoom_rtake errors n)

/-- Nothing else is kept. -/
theorem observe_eq_self (s : Session) {event : Event} (h : event.report? = none) :
    s.observe event = s := by
  cases event with
  | error report => cases h
  | stdout | stderr | done | inputRequest => rfl

theorem Shows.observe (h : s.Shows size errors) (hsize : 0 < size) (event : Event) :
    (s.observe event).Shows size (errors ++ event.report?.toList) := by
  cases hreport : event.report? with
  | none =>
    rw [observe_eq_self s hreport, Option.toList_none, List.append_nil]
    exact h
  | some report =>
    cases event with
    | error => exact Option.some.inj hreport ▸ h.observe_error hsize _
    | stdout | stderr | done | inputRequest => cases hreport

theorem Shows.clear (h : s.Shows size errors) : s.clear.Shows size [] :=
  ⟨h.limit_eq, (List.rtake_nil size).symm⟩

/-- The last error in a window is the last of all. -/
theorem Shows.last?_eq (h : s.Shows size errors) (hsize : 0 < size) :
    s.last? = errors.getLast? := by
  rw [last?, h.history_eq, List.rtake, List.getLast?_drop]
  cases errors with
  | nil => rfl
  | cons report errors => exact if_neg (by rw [List.length_cons]; omega)

/-- Whatever has been done, the session shows the errors since it was last cleared. -/
theorem shows_performAll (limit : Nat) (actions : List Action) :
    ((withLimit limit).performAll actions).Shows (max limit 1) (errorsSinceClear actions) := by
  have hsize : 0 < max limit 1 := by omega
  -- the last action is the one that may move the window
  induction actions using List.reverseRecOn with
  | nil => exact shows_withLimit limit
  | append_singleton actions action ih =>
    rw [performAll_concat]
    cases action with
    | observe event =>
      rw [errorsSinceClear_observe]
      exact ih.observe hsize event
    | clear =>
      rw [errorsSinceClear_clear]
      exact ih.clear

/-- A session has kept the last errors since it was last cleared, the oldest first: as many as it may
    keep, which is at least one, or all if they are fewer. Its last error is the last of them. No
    other event makes a difference. -/
theorem history_slides (limit : Nat) (actions : List Action) :
    ((withLimit limit).performAll actions).history =
        (errorsSinceClear actions).rtake (max limit 1) ∧
      ((withLimit limit).performAll actions).last? = (errorsSinceClear actions).getLast? ∧
      ∀ event : Event, event.report? = none →
        ((withLimit limit).performAll actions).observe event = (withLimit limit).performAll actions := by
  have hshows := shows_performAll limit actions
  refine ⟨hshows.history_eq, hshows.last?_eq (by omega), fun event hevent => ?_⟩
  exact observe_eq_self _ hevent

/-- Of three errors behind the place where the history is cleared, a session that keeps two has kept
    the last two, and the end of a program changes nothing. -/
theorem history_slides_cleared :
    let failure (message : Text) : Action := .observe (.error (.ofInternal message))
    let actions := [failure ['a'], .clear, failure ['b'], .observe .done, failure ['c'], failure ['d']]
    let s := (withLimit 2).performAll actions
    s.history = [.ofInternal ['c'], .ofInternal ['d']] ∧ s.last? = some (.ofInternal ['d']) ∧
      Event.report? .done = none ∧ s.observe .done = s := by
  intro failure actions s
  obtain ⟨hhistory, hlast, hother⟩ := history_slides 2 actions
  refine ⟨?_, ?_, rfl, hother .done rfl⟩
  · rw [hhistory]
    rfl
  · rw [hlast]
    rfl

end Session

end Pseudocode
