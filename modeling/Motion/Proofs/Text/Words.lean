/-
# Where words stand

A list falls into pieces where a predicate holds, and the words of a text are the pieces between its
blanks that are not empty.  Everything about the words follows from one equation: a blank parts a
text into two, and the words of the whole are those of the parts (`words_append_blank`).  So blanks
at the ends hold no words (`words_trim`), and a character that is not blank stands in a word
(`exists_word_of_mem`).

The last section says what words are without splitting anything: a text is blanks and runs of other
characters in turn (`IsRuns`), in one way only, and the runs are the words (`isRuns_iff`).
-/
import Mathlib.Data.List.Basic
import Motion.Text.Blank

namespace Motion

/-! ## 1. Splitting a list -/

section Splitting

variable {β γ : Type}

theorem splitOnP_map {f : β → γ} {p : γ → Bool} {q : β → Bool} {l : List β}
    (h : ∀ x ∈ l, p (f x) = q x) : (l.map f).splitOnP p = (l.splitOnP q).map (List.map f) := by
  induction l with
  | nil => rfl
  | cons x l ih =>
    have hrest := ih fun y hy => h y (List.mem_cons_of_mem x hy)
    obtain ⟨g, gs, hsplit⟩ := List.exists_cons_of_ne_nil (List.splitOnP_ne_nil q l)
    rw [List.map_cons, List.splitOnP_cons_eq_if_modifyHead, List.splitOnP_cons_eq_if_modifyHead,
      h x List.mem_cons_self, hrest, hsplit]
    split <;> simp

/-- A piece of a split stands in the list as it is, and nothing in it was split on. -/
theorem of_mem_splitOnP {q : β → Bool} {l g : List β} (h : g ∈ l.splitOnP q) :
    g <:+: l ∧ ∀ x ∈ g, q x = false := by
  suffices hmain : ∀ g gs, l.splitOnP q = g :: gs →
      (g <+: l ∧ ∀ x ∈ g, q x = false) ∧ ∀ m ∈ gs, m <:+: l ∧ ∀ x ∈ m, q x = false by
    obtain ⟨g', gs, hsplit⟩ := List.exists_cons_of_ne_nil (List.splitOnP_ne_nil q l)
    obtain ⟨⟨hstart, hfirst⟩, hothers⟩ := hmain g' gs hsplit
    rw [hsplit] at h
    rcases List.mem_cons.mp h with rfl | h
    · exact ⟨hstart.isInfix, hfirst⟩
    · exact hothers g h
  clear h
  induction l with
  | nil =>
    rintro g gs hsplit
    cases hsplit
    simp
  | cons x l ih =>
    intro g gs hsplit
    obtain ⟨m, ms, hrest⟩ := List.exists_cons_of_ne_nil (List.splitOnP_ne_nil q l)
    obtain ⟨⟨hstart, hfirst⟩, hothers⟩ := ih m ms hrest
    have hlater : ∀ m ∈ ms, m <:+: x :: l ∧ ∀ y ∈ m, q y = false := fun m hm =>
      ⟨(hothers m hm).1.trans (List.suffix_cons x l).isInfix, (hothers m hm).2⟩
    rw [List.splitOnP_cons_eq_if_modifyHead, hrest] at hsplit
    cases hx : q x with
    | true =>
      rw [hx, if_pos rfl] at hsplit
      obtain ⟨rfl, rfl⟩ := List.cons.inj hsplit
      refine ⟨⟨List.nil_prefix, by simp⟩, fun k hk => ?_⟩
      rcases List.mem_cons.mp hk with rfl | hk
      · exact ⟨hstart.isInfix.trans (List.suffix_cons x l).isInfix, hfirst⟩
      · exact hlater k hk
    | false =>
      rw [hx, if_neg Bool.false_ne_true, List.modifyHead_cons] at hsplit
      obtain ⟨rfl, rfl⟩ := List.cons.inj hsplit
      refine ⟨⟨List.prefix_cons_inj x |>.mpr hstart, fun y hy => ?_⟩, hlater⟩
      rcases List.mem_cons.mp hy with rfl | hy
      · exact hx
      · exact hfirst y hy

/-- What was not split on is what the pieces hold. -/
theorem flatten_splitOnP (q : β → Bool) (l : List β) :
    (l.splitOnP q).flatten = l.filter fun x => !q x := by
  induction l with
  | nil => rfl
  | cons x l ih =>
    obtain ⟨g, gs, hsplit⟩ := List.exists_cons_of_ne_nil (List.splitOnP_ne_nil q l)
    rw [List.splitOnP_cons_eq_if_modifyHead, List.filter_cons, ← ih, hsplit]
    cases q x <;> rfl

end Splitting

namespace Text

/-! ## 2. Words -/

/-- **A blank parts the words before it from those behind it.** -/
theorem words_append_blank {c : Char} (hc : isBlank c) (a b : Text) :
    words (a ++ c :: b) = words a ++ words b := by
  rw [words, List.splitOnP_append_cons a b hc, List.filter_append]
  rfl

theorem words_append_blanks {bs : Text} (h : ∀ c ∈ bs, isBlank c) (t : Text) :
    words (t ++ bs) = words t := by
  induction bs generalizing t with
  | nil => rw [List.append_nil]
  | cons c bs ih =>
    have hrest := ih (fun b hb => h b (List.mem_cons_of_mem c hb)) []
    rw [words_append_blank (h c List.mem_cons_self), ← List.nil_append bs, hrest, words_nil,
      List.append_nil]

theorem words_cons_blank {c : Char} (hc : isBlank c) (t : Text) : words (c :: t) = words t := by
  have hparted := words_append_blank hc [] t
  rwa [words_nil, List.nil_append, List.nil_append] at hparted

theorem words_of_isBlank {bs : Text} (h : ∀ c ∈ bs, isBlank c) (t : Text) :
    words (bs ++ t) = words t := by
  induction bs with
  | nil => rfl
  | cons c bs ih =>
    rw [List.cons_append, words_cons_blank (h c List.mem_cons_self)]
    exact ih fun b hb => h b (List.mem_cons_of_mem c hb)

theorem words_trimStart (t : Text) : words (trimStart t) = words t := by
  have hblanks : ∀ c ∈ t.takeWhile isBlank, isBlank c := fun c hc =>
    List.all_eq_true.mp List.all_takeWhile c hc
  calc words (trimStart t) = words (t.takeWhile isBlank ++ trimStart t) :=
        (words_of_isBlank hblanks _).symm
    _ = words t := by rw [trimStart, List.takeWhile_append_dropWhile]

/-- A text is its trimmed end with blanks behind it. -/
theorem exists_trimEnd_append (t : Text) :
    ∃ bs : Text, (∀ c ∈ bs, isBlank c) ∧ trimEnd t ++ bs = t := by
  refine ⟨(t.reverse.takeWhile isBlank).reverse, fun c hc => ?_, ?_⟩
  · exact List.all_eq_true.mp List.all_takeWhile c (List.mem_reverse.mp hc)
  · rw [trimEnd, ← List.reverse_append, List.takeWhile_append_dropWhile, List.reverse_reverse]

/-- **Blanks at the ends hold no words.** -/
theorem words_trim (t : Text) : words (trim t) = words t := by
  obtain ⟨bs, hbs, htrim⟩ := exists_trimEnd_append (trimStart t)
  calc words (trim t) = words (trimEnd (trimStart t) ++ bs) := (words_append_blanks hbs _).symm
    _ = words (trimStart t) := by rw [htrim]
    _ = words t := words_trimStart t

/-- Behind the blanks at the start of a text there is no blank. -/
theorem isBlank_of_head?_dropWhile {t : Text} {c : Char} (hc : c ∈ (t.dropWhile isBlank).head?) :
    isBlank c = false := by
  have hhead := List.head?_dropWhile_not isBlank t
  rw [Option.mem_def.mp hc] at hhead
  simpa using hhead

/-- **A character that is not blank stands in a word.** -/
theorem exists_word_of_mem {t : Text} {c : Char} (hmem : c ∈ t) (hc : isBlank c = false) :
    ∃ w ∈ words t, c ∈ w := by
  have hflat : c ∈ (t.splitOnP isBlank).flatten := by
    rw [flatten_splitOnP, List.mem_filter, hc]
    exact ⟨hmem, rfl⟩
  obtain ⟨w, hw, hcw⟩ := List.mem_flatten.mp hflat
  refine ⟨w, List.mem_filter.mpr ⟨hw, ?_⟩, hcw⟩
  cases w with
  | nil => cases hcw
  | cons a w => rfl

/-- A run of characters that are not blank is one word. -/
theorem words_run {w : Text} (hne : w ≠ []) (h : ∀ c ∈ w, isBlank c = false) : words w = [w] := by
  rw [words, List.splitOnP_eq_singleton fun c hc => by simp [h c hc]]
  simp [hne]

/-- **What is trimmed away is a text without words.** -/
theorem trim_eq_nil_iff {t : Text} : trim t = [] ↔ words t = [] := by
  constructor
  · intro h
    rw [← words_trim, h, words_nil]
  · intro h
    cases hstart : t.dropWhile isBlank with
    | nil =>
      rw [trim, trimStart, hstart]
      rfl
    | cons c rest =>
      -- what is left begins with a character that stands in a word
      have hc : isBlank c = false := isBlank_of_head?_dropWhile (congrArg List.head? hstart)
      have hmem : c ∈ t.dropWhile isBlank := hstart ▸ List.mem_cons_self
      obtain ⟨w, hw, -⟩ := exists_word_of_mem ((List.dropWhile_sublist isBlank).subset hmem) hc
      rw [h] at hw
      cases hw

/-- A text with a word is not trimmed away. -/
theorem trim_ne_nil {t : Text} (h : words t ≠ []) : trim t ≠ [] := mt trim_eq_nil_iff.mp h

/-! ## 3. Runs -/

/-- A text and its maximal runs of characters that are not blank, from left to right: blanks come
before each run, and what comes behind one is the end of the text or a blank. -/
inductive IsRuns : Text → List Text → Prop
  | blanks {bs : Text} (hbs : ∀ c ∈ bs, isBlank c) : IsRuns bs []
  | run {bs run rest : Text} {runs : List Text} (hbs : ∀ c ∈ bs, isBlank c) (hne : run ≠ [])
      (hrun : ∀ c ∈ run, isBlank c = false) (hend : ∀ c ∈ rest.head?, isBlank c)
      (hrest : IsRuns rest runs) : IsRuns (bs ++ (run ++ rest)) (run :: runs)

theorem words_eq_of_isRuns {t : Text} {runs : List Text} (h : IsRuns t runs) : words t = runs := by
  induction h with
  | blanks hbs =>
    have hwords := words_of_isBlank hbs []
    rwa [List.append_nil, words_nil] at hwords
  | @run bs run rest runs hbs hne hrun hend hrest ih =>
    rw [words_of_isBlank hbs]
    cases rest with
    | nil =>
      rw [← ih, List.append_nil, words_run hne hrun, words_nil]
    | cons c rest =>
      have hc : isBlank c := hend c rfl
      rw [words_append_blank hc, words_run hne hrun, ← ih, words_cons_blank hc]
      rfl

theorem exists_isRuns (t : Text) : ∃ runs, IsRuns t runs := by
  induction hn : t.length using Nat.strongRecOn generalizing t with
  | ind n ih =>
    have hbs : ∀ c ∈ t.takeWhile isBlank, isBlank c := fun c hc =>
      List.all_eq_true.mp List.all_takeWhile c hc
    have hparts : t.takeWhile isBlank ++ t.dropWhile isBlank = t :=
      List.takeWhile_append_dropWhile
    cases hmore : t.dropWhile isBlank with
    | nil =>
      rw [hmore, List.append_nil] at hparts
      rw [hparts] at hbs
      exact ⟨[], .blanks hbs⟩
    | cons c u =>
      have hc : isBlank c = false := isBlank_of_head?_dropWhile (congrArg List.head? hmore)
      let inRun : Char → Bool := fun a => !isBlank a
      have hrun : ∀ a ∈ c :: u.takeWhile inRun, isBlank a = false := by
        intro a ha
        rcases List.mem_cons.mp ha with rfl | ha
        · exact hc
        · simpa [inRun] using List.all_eq_true.mp List.all_takeWhile a ha
      have hend : ∀ a ∈ (u.dropWhile inRun).head?, isBlank a := by
        intro a ha
        have hhead := List.head?_dropWhile_not inRun u
        rw [Option.mem_def.mp ha] at hhead
        simpa [inRun] using hhead
      have hshorter : (u.dropWhile inRun).length < n := by
        have hdrop := (List.dropWhile_sublist inRun (l := u)).length_le
        have hlength := congrArg List.length hparts
        rw [hmore, List.length_append, List.length_cons] at hlength
        omega
      obtain ⟨runs, hruns⟩ := ih _ hshorter (u.dropWhile inRun) rfl
      have hall := IsRuns.run hbs (List.cons_ne_nil c _) hrun hend hruns
      rw [List.cons_append, List.takeWhile_append_dropWhile, ← hmore, hparts] at hall
      exact ⟨_, hall⟩

/-- **The words of a text are its maximal runs** of characters that are not blank. -/
theorem isRuns_iff {t : Text} {runs : List Text} : IsRuns t runs ↔ words t = runs := by
  refine ⟨words_eq_of_isRuns, ?_⟩
  rintro rfl
  obtain ⟨runs, hruns⟩ := exists_isRuns t
  rwa [words_eq_of_isRuns hruns]

end Text
end Motion
