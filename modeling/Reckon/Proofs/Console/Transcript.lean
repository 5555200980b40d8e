import Reckon.Console.Command
import Reckon.Proofs.Console.Session

/-!
# What a session writes

A session is its programs, run in order in one frame: what it writes is what the runs write, one after the
other (`CommandLine.run_session`).  A run that goes well writes its values, one that fails a single
diagnostic and no value (`Job.written`); the next one starts from what it has left behind either way.

Which lines belong to which program is settled by cutting them at the sentinels (`Repl.delimited`).  While
the lines are read, one invariant holds: the programs that are cut off so far have been run and written,
and the lines of the next one wait (`Repl.read_programs`).
-/

namespace Reckon

open Eval (bind_run_ok bind_eq_ok)

/-! ## What one run writes -/

namespace Report

/-- The second report written after the first. -/
def append (r s : Report) : Report :=
  ⟨r.out ++ s.out, r.err ++ s.err⟩

instance : Append Report :=
  ⟨append⟩

/-- Reports written one after the other. -/
def join (rs : List Report) : Report :=
  rs.foldr (· ++ ·) {}

variable (r s t : Report) (rs ss : List Report)

theorem append_empty : r ++ ({} : Report) = r := by
  show Report.mk (r.out ++ "") (r.err ++ "") = r
  rw [String.append_empty, String.append_empty]

theorem empty_append : ({} : Report) ++ r = r := by
  show Report.mk ("" ++ r.out) ("" ++ r.err) = r
  rw [String.empty_append, String.empty_append]

theorem append_assoc : r ++ s ++ t = r ++ (s ++ t) := by
  show Report.mk (r.out ++ s.out ++ t.out) (r.err ++ s.err ++ t.err) = _
  rw [String.append_assoc, String.append_assoc]
  rfl

theorem join_cons : join (r :: rs) = r ++ join rs := rfl

theorem join_concat : join (rs ++ [r]) = join rs ++ r := by
  induction rs with
  | nil => exact (append_empty r).trans (empty_append r).symm
  | cons s rs ih => rw [List.cons_append, join_cons, ih, join_cons, append_assoc]

end Report

namespace Job

variable {job : Job} {run : Program.Run}

/-- The run ends with values that can all be shown, with an error, or because it is nested too deeply. -/
def shows (job : Job) (run : Program.Run) : Bool :=
  match run.1 with
  | .ok result => result.values.all fun v => (v.text? job.settings.precision).isSome
  | .error (.reported _) => true
  | .error (.mishap cause) => cause == .tooDeep

/-- The lines of values. -/
def printed (job : Job) (values : List Value) : String :=
  String.join (values.map fun v =>
    Shell.styleFor job.env.styled ((v.text? job.settings.precision).getD "" ++ "\n"))

/-- The one diagnostic of a failure. -/
def complaint (job : Job) (file source : String) : Failure → String
  | .reported e =>
    let renderer := ({ color := job.settings.color } : Renderer).register file source
    Shell.styleFor job.env.styled (e.diagnostic.text renderer.color renderer.sources ++ "\n")
  | .mishap _ => Shell.styleFor job.env.styled ("error: maximum recursion depth exceeded" ++ "\n")

/-- What is written of a run: its trail, and then its values or one diagnostic. -/
def written (job : Job) (file source : String) (run : Program.Run) : Report :=
  match run.1 with
  | .ok result => ⟨job.printed result.values, job.trail run.2⟩
  | .error failure => ⟨"", job.trail run.2 ++ job.complaint file source failure⟩

theorem showValues_run {values : List Value} (r : Report)
    (h : ∀ v ∈ values, (v.text? job.settings.precision).isSome = true) :
    (values.forM job.showValue : Shell Unit) r =
      (.ok (), { r with out := r.out ++ job.printed values }) := by
  induction values generalizing r with
  | nil =>
    show (Except.ok (), r) = (Except.ok (), { r with out := r.out ++ "" })
    rw [String.append_empty]
  | cons v values ih =>
    obtain ⟨hv, hvalues⟩ := List.forall_mem_cons.1 h
    obtain ⟨text, htext⟩ := Option.isSome_iff_exists.1 hv
    have hfirst : job.showValue v r =
        (.ok (), { r with out := r.out ++ Shell.styleFor job.env.styled (text ++ "\n") }) := by
      unfold showValue
      rw [htext]
      rfl
    refine (bind_run_ok hfirst).trans ((ih _ hvalues).trans ?_)
    unfold printed
    rw [List.map_cons, String.join_cons, htext, ← String.append_assoc]
    rfl

/-- Showing a run writes what is to be written of it, and goes on. -/
theorem showRun_run (file source : String) (h : job.shows run = true) (r : Report) :
    job.showRun file source run r = (.ok run.1.isOk, r ++ job.written file source run) := by
  unfold showRun
  rw [bind_run_ok (job.reportEvents_run run.2 r)]
  unfold written
  unfold shows at h
  rcases hrun : run.1 with (e | m) | result <;> rw [hrun] at h
  · show (Except.ok false, Report.mk _ _) = (Except.ok false, Report.mk (r.out ++ "") _)
    rw [String.append_empty, ← String.append_assoc]
    rfl
  · obtain rfl : m = .tooDeep := beq_iff_eq.1 h
    show (Except.ok false, Report.mk _ _) = (Except.ok false, Report.mk (r.out ++ "") _)
    rw [String.append_empty, ← String.append_assoc]
    rfl
  · exact (bind_run_ok (showValues_run _ (List.all_eq_true.1 h))).trans rfl

end Job

/-! ## What the programs of a session write -/

namespace Repl

variable {job : Job} {sentinels lines last : List (List Char)} {done : List (List (List Char))}
  {st : State} {m : Machine}

/-- The lines of the programs that a session runs.  The lines behind the last sentinel are a program only
if there is more than blanks in them. -/
def delimited (sentinels lines : List (List Char)) : List (List (List Char)) :=
  let cut := lines.splitOnP (ends sentinels)
  if (cut.getLastD []).all Text.allBlank then cut.dropLast else cut

/-- The runs of programs in one frame, in order. -/
def runs (m : Machine) : List String → List (String × Program.Run)
  | [] => []
  | source :: rest =>
    let run := Program.runIn [] fileName source { m with log := [] }
    (source, run) :: runs run.2 rest

/-- What is written of programs that run from here on. -/
def transcript (job : Job) (m : Machine) (programs : List String) : Report :=
  Report.join ((runs m programs).map fun p => job.written fileName p.1 p.2)

theorem runs_concat (m : Machine) (programs : List String) (source : String) :
    runs m (programs ++ [source]) = runs m programs ++
      [(source, Program.runIn [] fileName source
        { Program.afterTexts fileName m programs with log := [] })] := by
  induction programs generalizing m with
  | nil => rfl
  | cons first rest ih => exact congrArg _ (ih _)

theorem transcript_concat (job : Job) (m : Machine) (programs : List String) (source : String) :
    transcript job m (programs ++ [source]) = transcript job m programs ++
      job.written fileName source (Program.runIn [] fileName source
        { Program.afterTexts fileName m programs with log := [] }) := by
  unfold transcript
  rw [runs_concat, List.map_append, List.map_singleton, Report.join_concat]

theorem flush_run (h : job.shows st.run = true) (r : Report) :
    flush job st r =
      (.ok { machine := st.run.2 }, r ++ job.written fileName (sourceOf st.gathered.reverse) st.run) := by
  unfold flush
  exact bind_run_ok (job.showRun_run fileName _ h r)

theorem finish_blank (hblank : st.gathered.all Text.allBlank = true) (r : Report) :
    finish job st r = (.ok (), r) := by
  unfold finish
  rw [if_pos hblank]
  rfl

theorem finish_waiting (hblank : ¬ st.gathered.all Text.allBlank = true) (h : job.shows st.run = true)
    (r : Report) : finish job st r =
      (.ok (), r ++ job.written fileName (sourceOf st.gathered.reverse) st.run) := by
  unfold finish
  rw [if_neg hblank]
  exact bind_run_ok (flush_run h r)

theorem prompt_run (hquiet : job.env.interactive = false) (r : Report) : prompt job r = (.ok (), r) := by
  unfold prompt
  rw [hquiet]
  rfl

/-- **Reading lines.**  When the lines are cut into programs and the last of these is open, reading them
runs all the others and leaves the lines of the last one waiting. -/
theorem read_programs (st : State) (lines : List (List Char)) (hquiet : job.env.interactive = false)
    (hopen : ∀ line ∈ st.gathered, ends sentinels line = false)
    (hcut : (st.gathered.reverse ++ lines).splitOnP (ends sentinels) = done ++ [last])
    (hshows : ∀ p ∈ runs st.machine (done.map sourceOf), job.shows p.2 = true) (r : Report) :
    lines.foldlM (feed job sentinels) st r =
      (.ok ⟨Program.afterTexts fileName st.machine (done.map sourceOf), last.reverse⟩,
        r ++ transcript job st.machine (done.map sourceOf)) := by
  -- Follows the lines; a sentinel cuts off the program that waits, which is then the next to run.
  induction lines generalizing st r done with
  | nil =>
    rw [List.append_nil, List.splitOnP_eq_singleton (by simpa using hopen)] at hcut
    have hcut : [] ++ [st.gathered.reverse] = done ++ [last] := hcut
    obtain ⟨rfl, hlast⟩ := List.append_inj' hcut rfl
    obtain rfl : st.gathered.reverse = last := by simpa using hlast
    rw [List.reverse_reverse]
    exact Prod.ext rfl (Report.append_empty r).symm
  | cons line rest ih =>
    rw [List.foldlM_cons]
    by_cases hends : ends sentinels line = true
    · rw [List.splitOnP_append_cons_of_forall_mem (by simpa using hopen) line hends] at hcut
      cases done with
      | nil =>
        obtain ⟨-, hnil⟩ := List.cons.inj hcut
        exact absurd hnil (List.splitOnP_ne_nil _ _)
      | cons first done =>
        obtain ⟨rfl, hrest⟩ := List.cons.inj hcut
        obtain ⟨hfirst, hshows⟩ := List.forall_mem_cons.1 hshows
        have hfeed : feed job sentinels st line r = (.ok { machine := st.run.2 },
            r ++ job.written fileName (sourceOf st.gathered.reverse) st.run) := by
          unfold feed
          rw [if_pos hends, bind_run_ok (flush_run hfirst r)]
          exact bind_run_ok (prompt_run hquiet _)
        rw [bind_run_ok hfeed, ih { machine := st.run.2 } (by simp) hrest hshows,
          Report.append_assoc]
        rfl
    · have hfeed : feed job sentinels st line r =
          (.ok { st with gathered := line :: st.gathered }, r) := by
        unfold feed
        rw [if_neg hends]
        exact bind_run_ok (prompt_run hquiet r)
      have hcut : ((line :: st.gathered).reverse ++ rest).splitOnP (ends sentinels) = done ++ [last] := by
        rw [List.reverse_cons, List.append_assoc]
        exact hcut
      have hopen : ∀ l ∈ line :: st.gathered, ends sentinels l = false :=
        List.forall_mem_cons.2 ⟨Bool.eq_false_iff.2 hends, hopen⟩
      rw [bind_run_ok hfeed]
      exact ih { st with gathered := line :: st.gathered } hopen hcut hshows r

/-- What a session writes behind its first trail. -/
theorem run_transcript (hquiet : job.env.interactive = false)
    (hsentinels : sentinelTexts job.settings = .ok sentinels)
    (hshows : ∀ p ∈ runs Program.fresh
      ((delimited sentinels (linesOf job.env.input)).map sourceOf), job.shows p.2 = true) (r : Report) :
    run job r = (.ok (), r ++ ⟨"", job.trail Program.fresh⟩ ++ transcript job Program.fresh
      ((delimited sentinels (linesOf job.env.input)).map sourceOf)) := by
  have hstart : start job r = (.ok sentinels, r ++ ⟨"", job.trail Program.fresh⟩) := by
    unfold start
    rw [hsentinels]
    refine (bind_run_ok (job.reportEvents_run Program.fresh r)).trans ?_
    rw [bind_run_ok (prompt_run hquiet _)]
    show (Except.ok sentinels, Report.mk _ _) = (Except.ok sentinels, Report.mk (r.out ++ "") _)
    rw [String.append_empty]
  unfold run
  rw [bind_run_ok hstart]
  unfold delimited at hshows ⊢
  dsimp only at hshows ⊢
  obtain ⟨done, last, hcut⟩ := List.eq_nil_or_concat' ((linesOf job.env.input).splitOnP (ends sentinels))
    |>.resolve_left (List.splitOnP_ne_nil _ _)
  rw [hcut, List.getLastD_concat, List.dropLast_concat] at hshows ⊢
  have hdone : ∀ p ∈ runs Program.fresh (done.map sourceOf), job.shows p.2 = true := by
    split at hshows
    · exact hshows
    · rw [List.map_append, List.map_singleton, runs_concat] at hshows
      exact fun p hp => hshows p (List.mem_append_left _ hp)
  have hread := read_programs {} (linesOf job.env.input) hquiet (by simp) hcut hdone
    (r ++ ⟨"", job.trail Program.fresh⟩)
  rw [bind_run_ok hread]
  by_cases hblank : last.all Text.allBlank = true
  · rw [if_pos hblank, finish_blank (by rwa [List.all_reverse])]
  · rw [if_neg hblank, List.map_append, List.map_singleton] at hshows ⊢
    rw [runs_concat] at hshows
    have hlast := hshows _ (List.mem_append_right _ List.mem_cons_self)
    rw [finish_waiting (by rwa [List.all_reverse]) (by rwa [State.run, List.reverse_reverse]),
      transcript_concat, Report.append_assoc, State.run, List.reverse_reverse]

theorem ends_of_mem_splitOnP {part : List (List Char)} {line : List Char}
    (hpart : part ∈ lines.splitOnP (ends sentinels)) (hline : line ∈ part) :
    ends sentinels line = false := by
  induction lines generalizing part with
  | nil =>
    rw [List.splitOnP_nil, List.mem_singleton] at hpart
    rw [hpart] at hline
    cases hline
  | cons first lines ih =>
    rw [List.splitOnP_cons_eq_if_modifyHead] at hpart
    split at hpart
    · rcases List.mem_cons.1 hpart with rfl | hpart
      · cases hline
      · exact ih hpart hline
    · rename_i hfirst
      obtain ⟨head, more, hsplit⟩ :=
        List.exists_cons_of_ne_nil (List.splitOnP_ne_nil (ends sentinels) lines)
      rw [hsplit, List.modifyHead_cons] at hpart
      rw [hsplit] at ih
      rcases List.mem_cons.1 hpart with rfl | hpart
      · rcases List.mem_cons.1 hline with rfl | hline
        · exact Bool.eq_false_iff.2 hfirst
        · exact ih List.mem_cons_self hline
      · exact ih (List.mem_cons_of_mem head hpart) hline

end Repl

/-! ## The command that starts a session -/

/-- Where there are no files, the settings are the usual ones. -/
theorem Settings.discover_empty (start : String) : discover {} start = .ok {} := by
  have hcontains : ∀ p : Path, p ≠ [] → FileTree.contains {} p = false := by
    intro p hp
    cases p with
    | nil => exact absurd rfl hp
    | cons name p => rfl
  have hnone : ∀ dir, FileTree.findUpwardFrom? {} fileName dir = none := by
    intro dir
    induction dir with
    | nil => rfl
    | cons name dir ih =>
      rw [FileTree.findUpwardFrom?, hcontains _ (by simp)]
      exact ih
  unfold discover find FileTree.findUpward?
  simp only [hnone]
  rfl

namespace CommandLine

open Repl

variable {env : Environment} {args : List String} {r r' : Report} {p : Plan}

theorem env_of_plan (h : plan env args r = (.ok (some p), r')) : p.job.env = env := by
  unfold plan at h
  obtain ⟨⟨o, rest⟩, r₁, -, h⟩ := bind_eq_ok h
  dsimp only at h
  by_cases hversion : o.version = true
  · rw [if_pos hversion] at h
    obtain ⟨_, _, -, hpure⟩ := bind_eq_ok h
    cases hpure
  · rw [if_neg hversion] at h
    obtain ⟨⟨name, args⟩, r₂, -, h⟩ := bind_eq_ok h
    dsimp only at h
    obtain ⟨command, r₃, -, h⟩ := bind_eq_ok h
    cases hsettings : Settings.discover env.files "." with
    | error fault =>
      rw [hsettings] at h
      cases h
    | ok settings =>
      rw [hsettings] at h
      obtain ⟨args, r₄, -, hpure⟩ := bind_eq_ok h
      cases hpure
      rfl

/-- **A session runs exactly the programs that its sentinels delimit.**  The lines of the input are cut at
the sentinels: every other line is in one of the parts, in order, and no sentinel is in any of them.  If nobody
is asked for the lines and every run can be shown, the session ends well, and what it has written is what its
programs write in one frame and in order, those included that fail. -/
theorem run_session {job : Job} {sentinels : List (List Char)}
    (hplan : plan env args {} = (.ok (some ⟨.repl, job, []⟩), {})) (hquiet : env.interactive = false)
    (hsentinels : sentinelTexts job.settings = .ok sentinels)
    (hshows : ∀ p ∈ runs Program.fresh ((delimited sentinels (linesOf env.input)).map sourceOf),
      job.shows p.2 = true) :
    let lines := linesOf env.input
    let cut := lines.splitOnP (ends sentinels)
    CommandLine.run env args = ⟨0, ⟨"", job.trail Program.fresh⟩ ++
      transcript job Program.fresh ((delimited sentinels lines).map sourceOf), none⟩ ∧
    (List.zipWith (· ++ ·) cut ((lines.filter (ends sentinels)).map ([·]) ++ [[]])).flatten = lines ∧
    ∀ part ∈ cut, ∀ line ∈ part, ends sentinels line = false := by
  intro lines cut
  obtain rfl : job.env = env := env_of_plan hplan
  have hexecute : execute job.env args {} = (.ok (), ⟨"", job.trail Program.fresh⟩ ++
      transcript job Program.fresh ((delimited sentinels (linesOf job.env.input)).map sourceOf)) := by
    unfold execute
    rw [bind_run_ok hplan]
    refine (run_transcript hquiet hsentinels hshows {}).trans ?_
    rw [Report.empty_append]
  refine ⟨?_, List.splitOnP_spec _, fun part hpart line => ends_of_mem_splitOnP hpart⟩
  unfold CommandLine.run
  rw [hexecute]
  rfl

/-- The second of three programs fails, and the last one is not ended by a sentinel. -/
theorem run_session_interrupted :
    let env : Environment := { input := "x = true\nx\n done\nnope\nquit\nx\n" }
    ∃ job, plan env ["repl"] {} = (.ok (some ⟨.repl, job, []⟩), {}) ∧
      (delimited ["done".toList, "quit".toList] (linesOf env.input)).map sourceOf =
        ["x = true\nx", "nope", "x"] ∧
      (runs Program.fresh ["x = true\nx", "nope", "x"]).map (fun p => p.2.1.isOk) =
        [true, false, true] ∧
      (CommandLine.run env ["repl"]).exit = 0 ∧
      (CommandLine.run env ["repl"]).report.out = "true\ntrue\ntrue\n" := by
  intro env
  let job : Job := { env := env, settings := {}, verbose := false }
  have hoptions : options? {} ["repl"] = some ({}, ["repl"]) := by decide +kernel
  have hplan : plan env ["repl"] {} = (.ok (some ⟨.repl, job, []⟩), {}) := by
    unfold plan
    rw [hoptions, show Settings.discover env.files "." = .ok {} from Settings.discover_empty "."]
    rfl
  have hsentinels : sentinelTexts job.settings = .ok ["done".toList, "quit".toList] := by decide +kernel
  have hprograms : (delimited ["done".toList, "quit".toList] (linesOf env.input)).map sourceOf =
      ["x = true\nx", "nope", "x"] := by decide +kernel
  have hshows : ∀ p ∈ runs Program.fresh ["x = true\nx", "nope", "x"], job.shows p.2 = true := by
    decide +kernel
  have hout : (transcript job Program.fresh ["x = true\nx", "nope", "x"]).out =
      "true\ntrue\ntrue\n" := by decide +kernel
  obtain ⟨hrun, -⟩ := run_session hplan rfl hsentinels (by rwa [hprograms])
  rw [hprograms] at hrun
  refine ⟨job, hplan, hprograms, by decide +kernel, by rw [hrun], ?_⟩
  rw [hrun]
  exact (String.empty_append).trans hout

end CommandLine

end Reckon
