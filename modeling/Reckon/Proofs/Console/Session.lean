import Reckon.Console.Repl
import Reckon.Proofs.Eval.Origin

/-!
# What a session quotes

The lines of an input are cut into programs at the sentinels (`programs`).  When some of the lines have
been read, the last of their programs waits, and the machine is the one that the others leave
(`read_lines`).  If the program that waits is run and reports an error, the diagnostic quotes a row of
this program, whichever program the error is from (`quoted_program`).  An error in the body of a function
that an earlier program defined is therefore shown with a line that it has nothing to do with.
-/

namespace Reckon

open Eval (bind_run_ok bind_eq_ok)

/-! ## What is written -/

namespace Job

variable {source file : String} {e : Error} {s : Span}

/-- The trail that is written of a run. -/
def trail (job : Job) (m : Machine) : String :=
  if job.verbose then String.join (m.log.reverse.map fun e => e.line ++ "\n") else ""

theorem reportEvents_run (job : Job) (m : Machine) (r : Report) :
    job.reportEvents m r = (.ok (), { r with err := r.err ++ job.trail m }) := by
  have hlines : ∀ (events : List Event) (r : Report),
      (events.forM fun e => Shell.traceLine e.line : Shell Unit) r =
        (.ok (), { r with err := r.err ++ String.join (events.map fun e => e.line ++ "\n") }) := by
    intro events
    induction events with
    | nil =>
      intro r
      simp only [List.map_nil, String.join_nil, String.append_empty]
      rfl
    | cons e rest ih =>
      intro r
      have hfirst : Shell.traceLine e.line r = (.ok (), { r with err := r.err ++ e.line ++ "\n" }) := rfl
      refine (bind_run_ok hfirst).trans ((ih _).trans ?_)
      rw [List.map_cons, String.join_cons]
      simp only [String.append_assoc]
  unfold reportEvents trail
  split
  · exact hlines _ _
  · rw [String.append_empty]
    rfl

/-- What is written when a run has reported an error: the trail of the run, and the diagnostic with a row
of the text that was run. -/
theorem showRun_reported (job : Job) {run : Program.Run} (r : Report)
    (hrun : run.1 = .error (.reported e)) (hs : e.span = some s) (hfile : s.file = file)
    (hline : 1 ≤ s.startLine) :
    job.showRun file source run r = (.ok false, { r with
      err := r.err ++ job.trail run.2 ++ Shell.styleFor job.env.styled
        (e.textQuoting job.settings.color s (Text.row? source s.startLine) ++ "\n") }) := by
  unfold showRun
  rw [bind_run_ok (job.reportEvents_run run.2 r), hrun]
  have htext := e.text_register { color := job.settings.color } source hs hfile hline
  rw [← htext]
  rfl

end Job

namespace Repl

variable {job : Job} {sentinels lines : List (List Char)} {st st' : State} {r r' : Report}

/-! ## The programs of an input -/

/-- The programs of an input; the last one is open. -/
def programs (sentinels lines : List (List Char)) : List String :=
  (lines.splitOnP (ends sentinels)).map sourceOf

/-- The run of the program that waits. -/
def State.run (st : State) : Program.Run :=
  Program.runIn [] fileName (sourceOf st.gathered.reverse) { st.machine with log := [] }

theorem flush_eq_ok (h : flush job st r = (.ok st', r')) : st' = { machine := st.run.2 } := by
  obtain ⟨_, _, -, hpure⟩ := bind_eq_ok h
  cases hpure
  rfl

/-- A line either ends the program that waits or is added to it. -/
theorem feed_eq_ok {line : List Char} (h : feed job sentinels st line r = (.ok st', r')) :
    ends sentinels line = true ∧ st' = { machine := st.run.2 } ∨
      ends sentinels line = false ∧ st' = { st with gathered := line :: st.gathered } := by
  unfold feed at h
  cases hends : ends sentinels line with
  | true =>
    rw [if_pos hends] at h
    obtain ⟨_, _, hflush, hrest⟩ := bind_eq_ok h
    obtain ⟨_, _, -, hpure⟩ := bind_eq_ok hrest
    cases hpure
    exact .inl ⟨rfl, flush_eq_ok hflush⟩
  | false =>
    rw [if_neg (by simp [hends])] at h
    obtain ⟨_, _, hadd, hrest⟩ := bind_eq_ok h
    obtain ⟨_, _, -, hpure⟩ := bind_eq_ok hrest
    cases hpure
    cases hadd
    exact .inr ⟨rfl, rfl⟩

/-- What has been read: the programs that have ended have run, and the lines of the last one wait. -/
theorem read_lines (hopen : ∀ line ∈ st.gathered, ends sentinels line = false)
    (h : lines.foldlM (feed job sentinels) st r = (.ok st', r')) :
    ∃ done : List String,
      programs sentinels (st.gathered.reverse ++ lines) = done ++ [sourceOf st'.gathered.reverse] ∧
      st'.machine = Program.afterTexts fileName st.machine done := by
  -- Follows the lines; a sentinel splits off the program that waits, which is then the next to run.
  induction lines generalizing st r with
  | nil =>
    rw [List.foldlM_nil] at h
    cases h
    refine ⟨[], ?_, rfl⟩
    rw [programs, List.append_nil, List.splitOnP_eq_singleton (by simpa using hopen)]
    rfl
  | cons line rest ih =>
    rw [List.foldlM_cons] at h
    obtain ⟨next, r₁, hfeed, hrest⟩ := bind_eq_ok h
    rcases feed_eq_ok hfeed with ⟨hends, rfl⟩ | ⟨hends, rfl⟩
    · obtain ⟨done, hdone, hmachine⟩ := ih (by simp) hrest
      refine ⟨sourceOf st.gathered.reverse :: done, ?_, hmachine⟩
      rw [programs, List.splitOnP_append_cons_of_forall_mem (by simpa using hopen) line hends,
        List.map_cons, List.cons_append]
      exact congrArg _ hdone
    · obtain ⟨done, hdone, hmachine⟩ := ih (by simpa using ⟨hends, hopen⟩) hrest
      refine ⟨done, ?_, hmachine⟩
      rw [← hdone, List.reverse_cons, List.append_assoc]
      rfl

/-! ## What is quoted for an error -/

/-- **What a session quotes for an error.**  After some lines of an input, the program that waits reports
an error when it is run.  With all spans named after the numbers of their programs, the name of the
error's place tells the program that the error is from, and the error is on a line of the text of that
program.  What is quoted is the row with the number of that line in the program that has just run.  If
the error is from this program and every earlier line is one row, this is the line itself exactly if no
character in it ends a row. -/
theorem quoted_program {e : Error} (hread : lines.foldlM (feed job sentinels) {} r = (.ok st, r'))
    (herror : st.run.1 = .error (.reported e)) :
    ∃ (done : List String) (source : String) (j : Nat) (text : String) (s : Span) (line : List Char),
      programs sentinels lines = done ++ [source] ∧ source = sourceOf st.gathered.reverse ∧
      (programs sentinels lines)[j]? = some text ∧ e.span = some s ∧
      (Program.runNamed (toString done.length) fileName source
        { Program.afterNamed fileName 0 Program.fresh done with log := [] }).1 =
          .error (.reported { e with span := some (s.named (toString j)) }) ∧
      (Text.lines text.toList)[(s.startLine - 1).toNat]? = some line ∧
      ∃ quoted, quoted = Text.row? source s.startLine ∧
        flush job st r' = (.ok { machine := st.run.2 }, { r' with
          err := r'.err ++ job.trail st.run.2 ++ Shell.styleFor job.env.styled
            (e.textQuoting job.settings.color s quoted ++ "\n") }) ∧
        (j = done.length →
          (∀ l ∈ (Text.lines text.toList).take (s.startLine - 1).toNat, Text.OneRow l) →
          ((quoted = some (String.ofList line) ∨ quoted = none ∧ line = []) ↔
            Text.EndFree line)) := by
  obtain ⟨done, hprograms, hmachine⟩ := read_lines (by simp) hread
  have hrun := herror
  rw [State.run, hmachine] at hrun
  obtain ⟨j, text, s, htext, hs, hoffset, hnamed⟩ := Program.error_origin hrun
  obtain ⟨hfile, hpos, line, hline⟩ := hoffset.exists_line
  refine ⟨done, _, j, text, s, line, hprograms, rfl, ?_, hs, hnamed, hline, _, rfl, ?_, ?_⟩
  · exact hprograms ▸ htext
  · unfold flush
    exact bind_run_ok (job.showRun_reported r' herror hs hfile hpos)
  · rintro rfl hearlier
    obtain rfl : sourceOf st.gathered.reverse = text := by simpa using htext
    exact (Text.row?_of_line hline hearlier).2

/-- A body of the first program fails when the second one calls it.  The error is from the first one, as
its name tells, and the line of the second one is quoted. -/
theorem quoted_program_earlier :
    ∃ (job : Job) (st : State) (r : Report) (e : Error) (s : Span),
      ["f(x) = y".toList, "done".toList, "f(true)".toList].foldlM (feed job ["done".toList]) {} {} =
        (.ok st, r) ∧
      st.run.1 = .error (.reported e) ∧ s.startLine = 1 ∧
      programs ["done".toList] ["f(x) = y".toList, "done".toList, "f(true)".toList] =
        ["f(x) = y", "f(true)"] ∧
      (Program.runNamed "1" fileName "f(true)"
        { Program.afterNamed fileName 0 Program.fresh ["f(x) = y"] with log := [] }).1 =
          .error (.reported { e with span := some (s.named "0") }) ∧
      (flush job st r).2.err = r.err ++ job.trail st.run.2 ++ Shell.styleFor job.env.styled
        (e.textQuoting job.settings.color s (some "f(true)") ++ "\n") := by
  let job : Job := { env := {}, settings := {}, verbose := false }
  let lines := ["f(x) = y".toList, "done".toList, "f(true)".toList]
  have hrun : (lines.foldlM (feed job ["done".toList]) {} {}).1.toOption.any (fun st =>
      (reported? st.run.1).any fun e => e.span.map Span.startLine == some 1) = true := by
    decide +kernel
  have hprograms : programs ["done".toList] lines = ["f(x) = y"] ++ ["f(true)"] := by decide +kernel
  have hname : (reported? (Program.runNamed "1" fileName "f(true)"
      { Program.afterNamed fileName 0 Program.fresh ["f(x) = y"] with log := [] }).1).any
        (fun e => e.span.map Span.file == some "0") = true := by
    decide +kernel
  have hrow : Text.row? "f(true)" 1 = some "f(true)" := by decide +kernel
  obtain ⟨st, hread, hrun⟩ := toOption_any_iff.1 hrun
  obtain ⟨e, he, hstart⟩ := (Option.any_eq_true _ _).1 hrun
  have he := reported?_eq_some_iff.1 he
  obtain ⟨done, source, j, text, s, line, hcut, -, -, hs, hnamed, -, quoted, rfl, hflush, -⟩ :=
    quoted_program (Prod.ext hread rfl) he
  obtain ⟨rfl, hsource⟩ := List.append_inj' (hprograms.symm.trans hcut) rfl
  obtain rfl : "f(true)" = source := by simpa using hsource
  rw [hs] at hstart
  have hline : s.startLine = 1 := by simpa using hstart
  have hzero : toString j = "0" := by
    rw [show toString ["f(x) = y"].length = "1" from rfl] at hnamed
    rw [hnamed] at hname
    simpa [reported?, Span.named] using hname
  rw [hzero] at hnamed
  rw [hline, hrow] at hflush
  exact ⟨job, st, _, e, s, Prod.ext hread rfl, he, hline, hprograms, hnamed, by rw [hflush]⟩

end Repl

end Reckon
