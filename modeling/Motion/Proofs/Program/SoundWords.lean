/-
# Words that cannot be read set nothing

A word that cannot be read leaves a warning and nothing else.  So two programs whose lines of code
differ only in such words have the same tool path (`toolpath_ofText_congr`): their commands are the
same but for where they stand and what they were read from, and the trace looks at neither.

It is the lines of code that have to correspond, and not the texts: a line on which every word is
bad still is a command, and an empty line is none.
-/
import Motion.Proofs.Program.Loading
import Motion.Proofs.Toolpath.History

namespace Motion

variable (α : Type) [Scalar α]

/-- The words of a line, without those that cannot be read. -/
def soundWords (text : Text) : List Text :=
  text.words.filter fun word =>
    match (readWord word : Option (Except WordFault (Entry α))) with
    | some (.error _) => false
    | _ => true

variable {α}

/-- What a word sets, if it sets something. -/
def entryOf? (word : Text) : Option (Entry α) :=
  match readWord word with
  | some (.ok entry) => some entry
  | _ => none

/-- **A line is read by its sound words.** -/
theorem entries_eq_filterMap_soundWords (text : Text) :
    (entries text : List (Entry α)) = (soundWords α text).filterMap entryOf? := by
  rw [entries, soundWords, List.filterMap_filter]
  refine List.filterMap_congr fun word _ => ?_
  unfold entryOf?
  cases (readWord word : Option (Except WordFault (Entry α))) with
  | none => rfl
  | some r => cases r <;> rfl

/-- Programs with the same entries on their lines have the same commands, but for their places. -/
theorem map_placed_readLines_congr (mode : CoordinateMode) (carried : Point α)
    {lines lines' : List (UInt32 × Text)}
    (h : lines.map (fun e => (entries e.2 : List (Entry α))) = lines'.map fun e => entries e.2) :
    (readLines mode carried lines).map (Command.placed 0 []) =
      (readLines mode carried lines').map (Command.placed 0 []) := by
  induction lines generalizing carried lines' with
  | nil =>
    cases lines' with
    | nil => rfl
    | cons e' rest' => simp at h
  | cons e rest ih =>
    cases lines' with
    | nil => simp at h
    | cons e' rest' =>
      obtain ⟨hentries, hrest⟩ := List.cons.inj h
      simp only at hentries
      have hread := readLine_eq_placed mode carried e.1 e.2
      have hread' := readLine_eq_placed mode carried e'.1 e'.2
      rw [hentries] at hread
      have htarget : (readLine mode carried e.1 e.2).target =
          (readLine mode carried e'.1 e'.2).target := by rw [hread, hread']; rfl
      simp only [readLines, List.map_cons, htarget, ih _ hrest]
      rw [hread, hread']
      rfl

/-- The trace does not look at where commands stand. -/
theorem Trace.ofCommands_placed (position : Option (Point α)) (cs : List (Command α)) :
    ofCommands position (cs.map (Command.placed 0 [])) = ofCommands position cs := by
  have hfeed (t : Trace α) (c : Command α) : t.feed (c.placed 0 []) = t.feed c := rfl
  simp only [ofCommands, List.foldl_map, hfeed]

/-- The tool path of a text comes from its commands, wherever they stand. -/
theorem toolpath_ofText_of_map_placed {o : Options} {t t' : Text}
    (h : (Program.ofText o t : Program α).commands.map (Command.placed 0 []) =
      (Program.ofText o t').commands.map (Command.placed 0 [])) :
    (Simulation.ofText o t : Simulation α).toolpath = (Simulation.ofText o t').toolpath ∧
      (Simulation.ofText o t : Simulation α).commandCount =
        (Simulation.ofText o t' : Simulation α).commandCount := by
  constructor
  · have htrace : Trace.ofCommands (some .origin) (Program.ofText o t : Program α).commands =
        Trace.ofCommands (some .origin) (Program.ofText o t').commands := by
      rw [← Trace.ofCommands_placed, h, Trace.ofCommands_placed]
    rw [Simulation.ofText, Simulation.ofProgram, htrace]
    rfl
  · have hlength := congrArg List.length h
    rw [List.length_map, List.length_map] at hlength
    exact hlength

/-- **Bad words make no difference to the tool path**, nor to the number of commands. -/
theorem toolpath_ofText_congr (o : Options) {t t' : Text}
    (h : (codeLines o.comment 1 t.lines).map (fun e => soundWords α e.2) =
      (codeLines o.comment 1 t'.lines).map fun e => soundWords α e.2) :
    (Simulation.ofText o t : Simulation α).toolpath = (Simulation.ofText o t').toolpath ∧
      (Simulation.ofText o t : Simulation α).commandCount =
        (Simulation.ofText o t' : Simulation α).commandCount := by
  have hentries : (codeLines o.comment 1 t.lines).map (fun e => (entries e.2 : List (Entry α))) =
      (codeLines o.comment 1 t'.lines).map fun e => entries e.2 := by
    have hmap := congrArg (List.map fun ws => ws.filterMap (entryOf? (α := α))) h
    rw [List.map_map, List.map_map] at hmap
    simp only [entries_eq_filterMap_soundWords]
    exact hmap
  refine toolpath_ofText_of_map_placed ?_
  rw [Program.ofText_eq, Program.ofText_eq]
  exact map_placed_readLines_congr o.mode .origin hentries

end Motion
