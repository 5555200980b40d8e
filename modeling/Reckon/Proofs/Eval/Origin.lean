import Reckon.Proofs.Eval.Relabelled
import Reckon.Proofs.Diagnostic.Quoted

/-!
# Which program an error is from

The programs of a session are all read under one file name, so that a span does not tell which of them
it is from.  In the same session with the spans of each program named after its number (`runNamed`,
`afterNamed`) it does.  Naming changes nothing else (`runIn_eq_runNamed`).

An error of a session, parsing apart, is at a node of the program that runs or of a function body of an
earlier one, and its name there tells which (`error_origin`).  As a place it belongs to the text of that
program.
-/

namespace Reckon

/-- The span under another file name. -/
def Span.named (name : String) (s : Span) : Span :=
  { s with file := name }

namespace Program

variable {file name source : String} {m : Machine} {e : Error}

/-- Parses a text and runs it, with every span named anew. -/
def runNamed (name file source : String) (m : Machine) : Run :=
  match Node.parse file source with
  | .error e => (.error (.reported (e.mapSpans (Span.named name))), m)
  | .ok node => evaluate [] (node.mapSpans (Span.named name)) m

/-- The machine after programs that ran one after the other, each with a log of its own. -/
def afterTexts (file : String) (m : Machine) (programs : List String) : Machine :=
  programs.foldl (fun m source => (runIn [] file source { m with log := [] }).2) m

/-- The same, with the spans of each program named after its number, counted from `k`. -/
def afterNamed (file : String) : Nat → Machine → List String → Machine
  | _, m, [] => m
  | k, m, source :: rest =>
    afterNamed file (k + 1) (runNamed (toString k) file source { m with log := [] }).2 rest

/-! ## Naming changes nothing else -/

/-- The spans of a text that parses have its file name, and so has the place of the error of one that
does not. -/
theorem file_of_parse (file source : String) :
    (∀ tree, Node.parse file source = .ok tree → ∀ around n, tree.Stands around n →
      ∃ s, n.span = some s ∧ s.file = file) ∧
    ∀ e, Node.parse file source = .error e → ∃ s, e.span = some s ∧ s.file = file := by
  obtain ⟨hok, herror⟩ := Node.parse_places file source
  refine ⟨fun tree htree around n hn => ?_, fun e he => ?_⟩
  · obtain ⟨s, hs, hoffset⟩ := (hok tree htree around n hn).place
    exact ⟨s, hs, hoffset.exists_line.1⟩
  · obtain ⟨-, s, hs, hoffset⟩ := herror e he
    exact ⟨s, hs, hoffset.exists_line.1⟩

/-- Named back, a span that had this name is what it was. -/
theorem named_named_of_file {s : Span} (h : s.file = file) (name : String) :
    ((some s).map (Span.named name)).map (Span.named file) = some s := by
  subst h
  rfl

/-- A run is the run with named spans, with these named back. -/
theorem runIn_eq_runNamed (name file source : String) (m : Machine) :
    runIn [] file source (m.mapSpans (Span.named file)) =
      ((runNamed name file source m).1.mapError (Failure.mapSpans (Span.named file)),
        (runNamed name file source m).2.mapSpans (Span.named file)) := by
  obtain ⟨hok, herror⟩ := file_of_parse file source
  unfold runIn runNamed
  cases hparse : Node.parse file source with
  | error e =>
    obtain ⟨s, hs, hfile⟩ := herror e hparse
    have hback : (e.mapSpans (Span.named name)).mapSpans (Span.named file) = e := by
      obtain ⟨cause, span⟩ := e
      cases hs
      exact congrArg (Error.mk cause) (named_named_of_file hfile name)
    show (Except.error (Failure.reported e), _) = (Except.error (Failure.reported _), _)
    rw [hback]
  | ok tree =>
    have hback : (tree.mapSpans (Span.named name)).mapSpans (Span.named file) = tree := by
      refine Node.mapSpans_cancel fun around n hn => ?_
      obtain ⟨s, hs, hfile⟩ := hok tree hparse around n hn
      rw [hs]
      exact named_named_of_file hfile name
    have hrun := Eval.eval_relabels (Span.named file) Eval.maxDepth [] (tree.mapSpans (Span.named name)) m
    rw [hback] at hrun
    exact hrun

/-- An error of a run is the error of the run with named spans, with its place named back. -/
theorem exists_reported_named (name : String)
    (h : (runIn [] file source (m.mapSpans (Span.named file))).1 = .error (.reported e)) :
    ∃ e', (runNamed name file source m).1 = .error (.reported e') ∧
      e = e'.mapSpans (Span.named file) := by
  rw [runIn_eq_runNamed name] at h
  rcases hresult : (runNamed name file source m).1 with (e' | c) | r
  · rw [hresult] at h
    cases h
    exact ⟨e', rfl, rfl⟩
  · rw [hresult] at h
    cases h
  · rw [hresult] at h
    cases h

theorem afterTexts_eq_afterNamed (file : String) (k : Nat) (m : Machine) (programs : List String) :
    afterTexts file (m.mapSpans (Span.named file)) programs =
      (afterNamed file k m programs).mapSpans (Span.named file) := by
  induction programs generalizing k m with
  | nil => rfl
  | cons source rest ih =>
    have hrun := runIn_eq_runNamed (toString k) file source { m with log := [] }
    rw [afterNamed, ← ih, afterTexts, List.foldl_cons]
    show List.foldl _ (runIn [] file source (Machine.mapSpans _ { m with log := [] })).2 rest = _
    rw [hrun]
    rfl

theorem mapSpans_fresh (f : Span → Span) : fresh.mapSpans f = fresh := by
  have hfunctions : Frame.global.functions.map (fun p => (p.1, p.2.mapSpans f)) =
      Frame.global.functions := by
    refine (List.map_congr_left fun p hp => ?_).trans (List.map_id _)
    obtain ⟨b, hb⟩ := Frame.native_of_mem_global hp
    obtain ⟨name, g⟩ := p
    cases hb
    rfl
  unfold Machine.mapSpans Frame.mapSpans fresh
  rw [hfunctions]

/-! ## Nodes of a session -/

/-- The node is one of the program with this number, named after it. -/
def NodeOf (file : String) (programs : List String) (j : Nat) (n : Node) : Prop :=
  ∃ source tree around, programs[j]? = some source ∧ Node.parse file source = .ok tree ∧
    (tree.mapSpans (Span.named (toString j))).Stands around n

/-- The node is one of the programs. -/
def NodeIn (file : String) (programs : List String) (n : Node) : Prop :=
  ∃ j, NodeOf file programs j n

variable {programs : List String} {j k : Nat} {n : Node}

/-- Such a node has a place in the text of its program, named after it. -/
theorem NodeOf.place (h : NodeOf file programs j n) :
    ∃ (source : String) (s : Span), programs[j]? = some source ∧ n.span = some (s.named (toString j)) ∧
      Text.Offset file source.toList s.start := by
  obtain ⟨source, tree, around, hsource, htree, hn⟩ := h
  obtain ⟨n₀, hn₀, rfl⟩ := hn.of_mapSpans
  obtain ⟨s, hs, hoffset⟩ := ((Node.parse_places file source).1 tree htree around n₀ hn₀).place
  refine ⟨source, s, hsource, ?_, hoffset⟩
  rw [Node.span_mapSpans, hs]
  rfl

/-- The nodes of a session report errors at nodes of the session. -/
theorem guarded_origin (file : String) (programs : List String) :
    Guarded (NodeIn file programs) (fun _ => True) (Failure.PointsTo (NodeIn file programs)) := by
  refine .pointing ?_ ?_ ?_
  · rintro n ⟨j, source, tree, around, hsource, htree, hn⟩ e he
    exact ⟨j, source, tree, around, hsource, htree, .part hn he⟩
  · rintro f ps body bs s ⟨j, source, tree, around, hsource, htree, hn⟩
    exact ⟨j, source, tree, f :: around, hsource, htree, .body hn⟩
  · rintro n ⟨j, hn⟩
    obtain ⟨source, s, -, hs, -⟩ := hn.place
    rw [hs]
    rfl

/-- A program of a session leaves functions of the session only. -/
theorem holds_runNamed (hsource : programs[k]? = some source)
    (hm : m.frame.Holds (NodeIn file programs) fun _ => True) :
    (runNamed (toString k) file source m).2.frame.Holds (NodeIn file programs) fun _ => True := by
  unfold runNamed
  cases hparse : Node.parse file source with
  | error e => exact hm
  | ok tree =>
    have hroot : NodeIn file programs (tree.mapSpans (Span.named (toString k))) :=
      ⟨k, source, tree, [], hsource, hparse, .root⟩
    exact (guarded_origin file programs).keeps Eval.maxDepth hroot (by simp [Scope.Holds]) m hm

theorem holds_afterNamed {rest : List String} (hrest : rest <+: programs.drop k)
    (hm : m.frame.Holds (NodeIn file programs) fun _ => True) :
    (afterNamed file k m rest).frame.Holds (NodeIn file programs) fun _ => True := by
  induction rest generalizing k m with
  | nil => exact hm
  | cons source rest ih =>
    obtain ⟨others, hdrop⟩ := hrest
    have hsource : programs[k]? = some source := by
      rw [← List.head?_drop, ← hdrop]
      rfl
    have hnext : rest <+: programs.drop (k + 1) := by
      rw [← List.drop_drop, ← hdrop]
      exact List.prefix_append rest others
    exact ih hnext (holds_runNamed hsource hm)

/-- An error of a program of a session has a place of the session. -/
theorem reported_runNamed (hsource : programs[k]? = some source)
    (hm : m.frame.Holds (NodeIn file programs) fun _ => True)
    (h : (runNamed (toString k) file source m).1 = .error (.reported e)) :
    ∃ (j : Nat) (text : String) (s : Span), programs[j]? = some text ∧ e.span = some (s.named (toString j)) ∧
      Text.Offset file text.toList s.start := by
  unfold runNamed at h
  cases hparse : Node.parse file source with
  | error e₀ =>
    rw [hparse] at h
    cases h
    obtain ⟨-, s, hs, hoffset⟩ := (Node.parse_places file source).2 e₀ hparse
    refine ⟨k, source, s, hsource, ?_, hoffset⟩
    rw [Error.mapSpans, hs]
    rfl
  | ok tree =>
    rw [hparse] at h
    have hroot : NodeIn file programs (tree.mapSpans (Span.named (toString k))) :=
      ⟨k, source, tree, [], hsource, hparse, .root⟩
    obtain ⟨-, herror⟩ := (guarded_origin file programs).eval Eval.maxDepth [] _ hroot
      (by simp [Scope.Holds]) m hm
    obtain ⟨n, t, ⟨j, hn⟩, hspan, he⟩ := (herror (.reported e) _ (Prod.ext h rfl)).1
    obtain ⟨text, s, htext, hs, hoffset⟩ := hn.place
    refine ⟨j, text, s, htext, ?_, hoffset⟩
    rw [he, ← hspan, hs]

/-- **Which program an error is from.**  After the programs `done` of a session, the next one reports an
error.  With all spans named after the numbers of their programs it reports the same error, and the name
of its place tells a program, which may be any of them.  The place is one of that program's text. -/
theorem error_origin {done : List String}
    (h : (runIn [] file source { afterTexts file fresh done with log := [] }).1 =
      .error (.reported e)) :
    ∃ (j : Nat) (text : String) (s : Span), (done ++ [source])[j]? = some text ∧ e.span = some s ∧
      Text.Offset file text.toList s.start ∧
      (runNamed (toString done.length) file source
        { afterNamed file 0 fresh done with log := [] }).1 =
          .error (.reported { e with span := some (s.named (toString j)) }) := by
  have hsource : (done ++ [source])[done.length]? = some source := by simp
  have hheld : (afterNamed file 0 fresh done).frame.Holds (NodeIn file (done ++ [source]))
      fun _ => True := holds_afterNamed (by simp) Frame.Holds.global
  have hmachine := afterTexts_eq_afterNamed file 0 fresh done
  rw [mapSpans_fresh] at hmachine
  rw [hmachine] at h
  obtain ⟨e', he', he⟩ := exists_reported_named (toString done.length)
    (m := { afterNamed file 0 fresh done with log := [] }) h
  obtain ⟨j, text, s, htext, hs, hoffset⟩ :=
    reported_runNamed (m := { afterNamed file 0 fresh done with log := [] }) hsource hheld he'
  have hback : s.named file = s := by
    rw [← hoffset.exists_line.1]
    rfl
  obtain ⟨cause, span⟩ := e'
  cases hs
  refine ⟨j, text, s, htext, ?_, hoffset, ?_⟩
  · rw [he]
    exact congrArg some hback
  · rw [he', he]
    rfl

end Program

end Reckon
