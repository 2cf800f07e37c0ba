import Pseudocode.Proofs.Document
import Pseudocode.Server

/-!
# Serving

The host of a server sends lines and reads events, in any order. A line that cannot be followed is
refused, and the server goes on as if it had never come.

* `Server.eq_of_refused`         a line that is refused leaves the server as it was
* `Server.follow_cases`          a step starts a program, hands out its last event or does neither
* `Server.Tracks.serve`          a program runs from its start until its last event is handed out
* `Server.serve_kept`            without the lines that are not followed, the rest is the same
* `Server.refusals_are_harmless` what this means to the host and to the programs
-/

namespace Pseudocode

/-! ## Blank lines -/

theorem Text.isBlank_of_trim_eq_nil {t : Text} (h : trim t = []) : ∀ c ∈ t, isBlank c = true := by
  have hrest : ∀ c ∈ trimStart t, isBlank c = true := by
    have hdrop := List.dropWhile_eq_nil_iff.1 (List.reverse_eq_nil_iff.1 h)
    exact fun c hc => hdrop c (List.mem_reverse.2 hc)
  intro c hc
  rw [← leadingBlanks_append_trimStart t] at hc
  rcases List.mem_append.1 hc with hc | hc
  · exact isBlank_of_mem_leadingBlanks hc
  · exact hrest c hc

/-- A line that is skipped is no message. -/
theorem Message.trim_ne_nil_of_parse {line : Text} {m : Message} (h : parse line = .ok m) :
    (Text.trim line).isEmpty = false := by
  rw [Bool.eq_false_iff]
  intro hblank
  have hnone := Json.parse?_eq_none_of_isBlank (Text.isBlank_of_trim_eq_nil (List.isEmpty_iff.1 hblank))
  rw [parse, hnone] at h
  cases h

namespace Server

/-! ## Steps -/

/-- What the host does: it sends a line, or asks for the next event. -/
inductive Step where
  | line (line : Text)
  | poll
  deriving DecidableEq, Repr

/-- What comes of a step. Programs are numbered in the order in which they are started. -/
inductive Outcome where
  /-- A line without a message. -/
  | skipped
  | refused (reply : Event)
  | started (program : Nat)
  | answered
  /-- The next event of a program, or the end of its events. -/
  | delivered (program : Nat) (event : Option Event)
  /-- There is no event yet. -/
  | silent
  deriving DecidableEq, Repr

/-- Whether a line was followed. Polls always are. -/
def Outcome.isFollowed : Outcome → Bool
  | .skipped | .refused _ => false
  | _ => true

/-- Whether no event of the program follows. -/
def IsLast : Option Event → Prop
  | some e => e.isTerminal = true
  | none => True

/-- A step of the host. -/
def follow (s : Server) : Step → Outcome × Server
  | .line line =>
    if (Text.trim line).isEmpty then (.skipped, s)
    else match s.handleLine line with
      | (some reply, s') => (.refused reply, s')
      | (none, s') => (if s.started < s'.started then .started s.started else .answered, s')
  | .poll =>
    match s.poll with
    | (.event e, s') => (.delivered (s.started - 1) (some e), s')
    | (.ended, s') => (.delivered (s.started - 1) none, s')
    | (.waiting, s') => (.silent, s')

/-- What comes of the steps of the host, and the server after them. -/
def serve (s : Server) : List Step → List Outcome × Server
  | [] => ([], s)
  | step :: steps =>
    let (outcome, s') := s.follow step
    let (outcomes, s'') := s'.serve steps
    (outcome :: outcomes, s'')

/-- The steps without the lines that are not followed. -/
def kept (s : Server) : List Step → List Step
  | [] => []
  | step :: steps =>
    let (outcome, s') := s.follow step
    if outcome.isFollowed then step :: s'.kept steps else s'.kept steps

/-- What is handed out of the program. -/
def Outcome.deliveryOf? (program : Nat) : Outcome → Option (Option Event)
  | .delivered k event => if k = program then some event else none
  | _ => none

/-- The events of a program, and their end, as they are handed out. -/
def deliveries (program : Nat) (outcomes : List Outcome) : List (Option Event) :=
  outcomes.filterMap (Outcome.deliveryOf? program)

theorem mem_deliveries {program : Nat} {outcomes : List Outcome} {event : Option Event} :
    event ∈ deliveries program outcomes ↔ .delivered program event ∈ outcomes := by
  rw [deliveries, List.mem_filterMap]
  constructor
  · rintro ⟨outcome, hmem, heq⟩
    cases outcome <;> simp only [Outcome.deliveryOf?, reduceCtorEq] at heq
    split at heq <;> cases heq
    subst program
    exact hmem
  · intro hmem
    exact ⟨_, hmem, if_pos rfl⟩

variable {s s' : Server}

/-! ## Refusals -/

/-- All that a line can do: it is skipped or refused, it starts a program while none runs, or it is an
    answer to the one that runs. -/
theorem handleLine_cases (s : Server) (line : Text) :
    ((Text.trim line).isEmpty = true ∧ s.handleLine line = (none, s)) ∨
    ((Text.trim line).isEmpty = false ∧ ∃ t, s.handleLine line = (some (.stderr t), s)) ∨
    ((Text.trim line).isEmpty = false ∧ s.current = none ∧ ∃ execution,
      s.handleLine line = (none, { s with started := s.started + 1, current := some execution })) ∨
    ((Text.trim line).isEmpty = false ∧ s.isRunning = true ∧ ∃ execution,
      s.handleLine line = (none, { s with current := some execution })) := by
  -- blank line, unreadable message, start, answer: in the order of the server
  cases hblank : (Text.trim line).isEmpty with
  | true => exact .inl ⟨rfl, by rw [handleLine, hblank, if_pos rfl]⟩
  | false =>
    rw [handleLine, hblank, if_neg Bool.false_ne_true]
    cases hparse : Message.parse line with
    | error fault => exact .inr (.inl ⟨rfl, _, rfl⟩)
    | ok message =>
      cases message with
      | start source budget =>
        cases hcurrent : s.current with
        | none => exact .inr (.inr (.inl ⟨rfl, rfl, _, by simp only [start, hcurrent]; rfl⟩))
        | some execution => exact .inr (.inl ⟨rfl, _, by simp only [start, hcurrent]; rfl⟩)
      | response id value =>
        cases hcurrent : s.current with
        | none => exact .inr (.inl ⟨rfl, _, by simp only [respond, hcurrent]; rfl⟩)
        | some execution =>
          cases hanswer : execution.respond id value with
          | error fault => exact .inr (.inl ⟨rfl, _, by simp only [respond, hcurrent, hanswer]; rfl⟩)
          | ok next =>
            refine .inr (.inr (.inr ⟨rfl, ?_, next, by simp only [respond, hcurrent, hanswer]⟩))
            rw [isRunning, hcurrent, Option.isSome_some]

/-- A line that is refused is answered by a line beside the output, and changes nothing. -/
theorem eq_of_refused {line : Text} {reply : Event} (h : s.handleLine line = (some reply, s')) :
    (∃ t, reply = .stderr t) ∧ s' = s := by
  rcases s.handleLine_cases line with ⟨-, heq⟩ | ⟨-, t, heq⟩ | ⟨-, -, _, heq⟩ | ⟨-, -, _, heq⟩
  -- only a refusal has a reply
  all_goals
    rw [heq] at h
    cases h
  exact ⟨⟨t, rfl⟩, rfl⟩

/-- A line that is not followed changes nothing. -/
theorem follow_eq_self {step : Step} (h : (s.follow step).1.isFollowed = false) :
    (s.follow step).2 = s := by
  -- only a line can be refused, a poll never is
  cases step with
  | line line =>
    rw [follow] at h ⊢
    split
    · rfl
    · next hblank =>
      rw [if_neg hblank] at h
      split
      · next heq => exact (eq_of_refused heq).2
      · next s' heq =>
        rw [heq] at h
        dsimp only at h
        split at h <;> cases h
  | poll =>
    rw [follow] at h
    split at h <;> cases h

/-- Without the lines that are not followed, the host sees the same of what remains, and the server
    ends up the same. -/
theorem serve_kept (s : Server) (steps : List Step) :
    s.serve (s.kept steps) = ((s.serve steps).1.filter Outcome.isFollowed, (s.serve steps).2) := by
  induction steps generalizing s with
  | nil => rfl
  | cons step steps ih =>
    by_cases hfollowed : (s.follow step).1.isFollowed = true
    · simp [kept, serve, hfollowed, ih]
    · -- the steps behind a line that is not followed meet the same server
      have hsame := follow_eq_self (Bool.eq_false_iff.2 hfollowed)
      simp [kept, serve, hfollowed, hsame, ih]

/-- A line that is not followed hands out no event. -/
theorem deliveries_filter (program : Nat) (outcomes : List Outcome) :
    deliveries program (outcomes.filter Outcome.isFollowed) = deliveries program outcomes := by
  rw [deliveries, List.filterMap_filter]
  apply List.filterMap_congr
  intro outcome _
  cases outcome <;> rfl

/-! ## Programs -/

/-- What a step does to the programs: it starts one, hands out the last event of the one that runs, or
    neither. -/
theorem follow_cases {step : Step} {outcome : Outcome} (h : s.follow step = (outcome, s')) :
    (s'.isRunning = s.isRunning ∧ s'.started = s.started ∧ (∀ k, outcome ≠ .started k) ∧
      ∀ k last, IsLast last → outcome ≠ .delivered k last) ∨
    (s.isRunning = false ∧ s'.isRunning = true ∧ s'.started = s.started + 1 ∧
      outcome = .started s.started) ∨
    (s.isRunning = true ∧ s'.isRunning = false ∧ s'.started = s.started ∧
      ∃ last, IsLast last ∧ outcome = .delivered (s.started - 1) last) := by
  cases step with
  | line line =>
    rw [follow] at h
    rcases s.handleLine_cases line with ⟨hblank, heq⟩ | ⟨hblank, t, heq⟩ | ⟨hblank, hidle, execution, heq⟩ |
      ⟨hblank, hrunning, execution, heq⟩
    · rw [hblank, if_pos rfl] at h
      cases h
      exact .inl (by simp)
    · rw [hblank, if_neg Bool.false_ne_true, heq] at h
      cases h
      exact .inl (by simp)
    · rw [hblank, if_neg Bool.false_ne_true, heq] at h
      cases h
      exact .inr (.inl (by simp [isRunning, hidle]))
    · rw [hblank, if_neg Bool.false_ne_true, heq] at h
      cases h
      exact .inl ⟨hrunning.symm, rfl, by simp, by simp⟩
  | poll =>
    rw [follow, poll] at h
    cases hcurrent : s.current with
    | none =>
      rw [hcurrent] at h
      cases h
      exact .inl (by simp)
    | some execution =>
      have hrunning : s.isRunning = true := by rw [isRunning, hcurrent, Option.isSome_some]
      simp only [hcurrent] at h
      generalize execution.poll = polled at h
      obtain ⟨polled, next⟩ := polled
      cases polled with
      | waiting =>
        cases h
        exact .inl ⟨hrunning.symm, rfl, by simp, by simp⟩
      | ended =>
        cases h
        exact .inr (.inr ⟨hrunning, rfl, rfl, none, trivial, rfl⟩)
      | event e =>
        cases h
        cases hterminal : e.isTerminal with
        | true => exact .inr (.inr ⟨hrunning, by simp [isRunning], rfl, some e, hterminal, rfl⟩)
        | false =>
          -- the program goes on, so what it hands out is not its last event
          refine .inl ⟨by rw [hrunning]; simp [isRunning], rfl, by simp, ?_⟩
          intro k last hlast heq
          cases heq
          rw [IsLast, hterminal] at hlast
          cases hlast

/-- The programs whose last event was handed out: all but the one that runs. -/
def finished (s : Server) : Nat := if s.isRunning then s.started - 1 else s.started

/-- What was handed out so far fits the state of the server. -/
structure Tracks (s : Server) (outcomes : List Outcome) : Prop where
  positive : s.isRunning = true → 0 < s.started
  started : ∀ k, .started k ∈ outcomes ↔ k < s.started
  finished : ∀ k, (∃ last, IsLast last ∧ .delivered k last ∈ outcomes) ↔ k < s.finished

theorem tracks_connect (policy : TimeoutPolicy) (ids : Nat → Nat → Text) :
    Tracks (connect policy ids) [] := by
  constructor <;> simp [connect, isRunning, Server.finished]

theorem Tracks.stays {outcomes : List Outcome} (h : Tracks s outcomes) {outcome : Outcome}
    (hrunning : s'.isRunning = s.isRunning) (hcount : s'.started = s.started)
    (hstart : ∀ k, outcome ≠ .started k) (hlast : ∀ k last, IsLast last → outcome ≠ .delivered k last) :
    Tracks s' (outcomes ++ [outcome]) := by
  -- the finished runs are those that were started and do not run any more
  have hsame : s'.finished = s.finished := by rw [Server.finished, Server.finished, hrunning, hcount]
  constructor
  · rw [hrunning, hcount]
    exact h.positive
  · intro k
    rw [hcount, ← h.started]
    simp [(hstart k).symm]
  · intro k
    rw [hsame, ← h.finished]
    apply exists_congr
    intro last
    apply and_congr_right
    intro h
    simp [(hlast k last h).symm]

theorem Tracks.starts {outcomes : List Outcome} (h : Tracks s outcomes) (hidle : s.isRunning = false)
    (hruns : s'.isRunning = true) (hcount : s'.started = s.started + 1) :
    Tracks s' (outcomes ++ [.started s.started]) := by
  constructor
  · omega
  · intro k
    rw [List.mem_append, h.started, List.mem_singleton, Outcome.started.injEq, hcount]
    omega
  · intro k
    have hsame : s'.finished = s.finished := by
      rw [Server.finished, Server.finished, hidle, hruns, hcount]
      rfl
    rw [hsame, ← h.finished]
    simp

theorem Tracks.ends {outcomes : List Outcome} (h : Tracks s outcomes) (hran : s.isRunning = true)
    (hidle : s'.isRunning = false) (hcount : s'.started = s.started) {last : Option Event}
    (hlast : IsLast last) : Tracks s' (outcomes ++ [.delivered (s.started - 1) last]) := by
  have hpositive := h.positive hran
  constructor
  · simp [hidle]
  · intro k
    rw [hcount, ← h.started]
    simp
  · intro k
    have hbefore := h.finished k
    rw [Server.finished, hran, if_pos rfl] at hbefore
    rw [Server.finished, hidle, if_neg Bool.false_ne_true, hcount]
    -- the program that ends is the latest one, and those before it have ended already
    constructor
    · rintro ⟨other, hother, hmem⟩
      rcases List.mem_append.1 hmem with hmem | hmem
      · have := hbefore.1 ⟨other, hother, hmem⟩
        omega
      · obtain ⟨rfl, rfl⟩ : k = s.started - 1 ∧ other = last := by simpa using hmem
        omega
    · intro hk
      by_cases hlatest : k = s.started - 1
      · exact ⟨last, hlast, by simp [hlatest]⟩
      · obtain ⟨other, hother, hmem⟩ := hbefore.2 (by omega)
        exact ⟨other, hother, List.mem_append_left _ hmem⟩

/-- Each step keeps it. -/
theorem Tracks.follow {outcomes : List Outcome} (h : Tracks s outcomes) (step : Step) :
    Tracks (s.follow step).2 (outcomes ++ [(s.follow step).1]) := by
  obtain ⟨outcome, s', heq⟩ : ∃ outcome s', s.follow step = (outcome, s') := ⟨_, _, rfl⟩
  rw [heq]
  rcases follow_cases heq with ⟨hrunning, hcount, hstart, hlast⟩ | ⟨hidle, hruns, hcount, rfl⟩ |
    ⟨hran, hidle, hcount, last, hlast, rfl⟩
  · exact h.stays hrunning hcount hstart hlast
  · exact h.starts hidle hruns hcount
  · exact h.ends hran hidle hcount hlast

/-- So do all steps. -/
theorem Tracks.serve {outcomes : List Outcome} (h : Tracks s outcomes) (steps : List Step) :
    Tracks (s.serve steps).2 (outcomes ++ (s.serve steps).1) := by
  induction steps generalizing s outcomes with
  | nil => simpa [Server.serve] using h
  | cons step steps ih => simpa [Server.serve] using ih (h.follow step)

/-- A start is followed while no program runs. -/
theorem handleLine_start {line source : Text} {budget : Option Nat}
    (h : Message.parse line = .ok (.start source budget)) :
    (s.handleLine line).1 = none ↔ s.isRunning = false := by
  rw [handleLine, Message.trim_ne_nil_of_parse h, if_neg Bool.false_ne_true, h]
  cases hcurrent : s.current <;> simp [start, hcurrent, isRunning]

/-- A line that is refused is answered by a line beside the output and leaves the server as it was. A
    start is followed exactly while the last event of every program that was started was handed out.
    Whatever the host does, without the lines that are blank or refused it sees the same of the others,
    each program hands out the same events, and the server ends up the same. -/
theorem refusals_are_harmless :
    (∀ (s : Server) (line : Text) (reply : Event) (s' : Server),
      s.handleLine line = (some reply, s') → (∃ t, reply = .stderr t) ∧ s' = s) ∧
    (∀ policy ids steps line source budget, Message.parse line = .ok (.start source budget) →
      (((((connect policy ids).serve steps).2.handleLine line).1 = none) ↔
        ∀ k, .started k ∈ ((connect policy ids).serve steps).1 →
          ∃ last ∈ deliveries k ((connect policy ids).serve steps).1, IsLast last)) ∧
    (∀ (s : Server) (steps : List Step),
      (s.serve (s.kept steps)).1 = (s.serve steps).1.filter Outcome.isFollowed ∧
        (∀ k, deliveries k (s.serve (s.kept steps)).1 = deliveries k (s.serve steps).1) ∧
        (s.serve (s.kept steps)).2 = (s.serve steps).2) := by
  refine ⟨fun s line reply s' => eq_of_refused, ?_, ?_⟩
  · intro policy ids steps line source budget hparse
    obtain ⟨hpositive, hstarted, hfinished⟩ := (tracks_connect policy ids).serve steps
    rw [List.nil_append] at hstarted hfinished
    rw [handleLine_start hparse]
    generalize (connect policy ids).serve steps = served at *
    simp only [mem_deliveries, hstarted, and_comm, hfinished]
    -- the program that runs is the only one whose last event is not there yet
    cases hrunning : served.2.isRunning with
    | false => simp [Server.finished, hrunning]
    | true =>
      have hlatest := hpositive hrunning
      simp only [Bool.true_eq_false, false_iff, not_forall, Server.finished, hrunning, if_true]
      exact ⟨served.2.started - 1, by omega, by omega⟩
  · intro s steps
    rw [serve_kept]
    exact ⟨rfl, fun k => deliveries_filter k _, rfl⟩

/-- A line that is no document is refused by a new server, and a second start is refused by a server
    that has just followed the first. -/
theorem refusals_are_harmless_busy :
    let s := connect .cumulative fun _ _ => []
    let line := text "\x7b\"code\":\"x\"\x7d"
    (s.handleLine (text "?")).1 ≠ none ∧ (s.handleLine (text "?")).2 = s ∧
      Message.parse line = .ok (.start (text "x") none) ∧
      ((s.serve [.line line]).2.handleLine line).1 ≠ none := by
  intro s line
  have hrefused : s.handleLine (text "?") =
      (some (.stderr (text "invalid message: the line is not a JSON document")), s) := by
    cbv
  have hparse : Message.parse line = .ok (.start (text "x") none) := by
    change Message.parse (text "\x7b\"code\":\"x\"\x7d") = _
    cbv
  have houtcomes : (s.serve [.line line]).1 = [.started 0] := by
    have hblank := Message.trim_ne_nil_of_parse hparse
    simp [serve, follow, handleLine, hblank, hparse, start, s, connect]
  refine ⟨by simp [hrefused], (refusals_are_harmless.1 s _ _ _ hrefused).2, hparse, fun hfollowed => ?_⟩
  have hlast := (refusals_are_harmless.2.1 .cumulative (fun _ _ => []) [.line line] line _ _ hparse).1 hfollowed
  obtain ⟨last, hmem, -⟩ := hlast 0 (by rw [houtcomes]; exact List.mem_cons_self)
  rw [mem_deliveries, houtcomes] at hmem
  simp at hmem

end Server

end Pseudocode
