import Mathlib.Data.List.Chain
import Mathlib.Data.List.DropRight

/-! Words with separators between them: what collapsing, trimming and cutting a list makes of it. -/

namespace Words
variable {α : Type} {p : α → Bool} {sep : α}

variable (p sep) in
/-- Words of `p`, joined by single separators. -/
def Joined (l : List α) : Prop :=
  ∃ words : List (List α), words ≠ [] ∧ (∀ w ∈ words, w ≠ [] ∧ ∀ c ∈ w, p c = true) ∧ [sep].intercalate words = l

variable (p sep) in
/-- Words of `p` and single separators; there may be one at either end. -/
structure Spaced (l : List α) : Prop where
  chars : ∀ c ∈ l, p c = true ∨ c = sep
  apart : l.IsChain fun a b => p a = true ∨ p b = true

variable (p sep) in
/-- Every run of other elements becomes one separator. `inRun` says whether the element before belongs to a run that
    was replaced. -/
def collapse : Bool → List α → List α
  | _, [] => []
  | inRun, c :: l =>
    if p c then c :: collapse false l
    else if inRun then collapse true l
    else sep :: collapse true l

/-! ### Collapsed lists -/

variable {l l' : List α} {c : α}

theorem spaced_nil : Spaced p sep [] := ⟨nofun, List.isChain_nil⟩

theorem Spaced.part (h : Spaced p sep l) (hl : l' <:+: l) : Spaced p sep l' :=
  ⟨fun c hc => h.chars c (hl.subset hc), h.apart.infix hl⟩

theorem spaced_cons (hc : p c = true ∨ c = sep) (h : Spaced p sep l) (next : ∀ d ∈ l.head?, p c = true ∨ p d = true) :
    Spaced p sep (c :: l) :=
  ⟨List.forall_mem_cons.mpr ⟨hc, h.chars⟩, List.isChain_cons.mpr ⟨next, h.apart⟩⟩

/-- What follows a separator does not begin with another one. -/
theorem collapse_head {d : α} (h : d ∈ (collapse p sep true l).head?) : p d = true := by
  induction l with
  | nil => cases h
  | cons c l ih =>
    rw [collapse] at h
    split at h
    · next hc => exact Option.some.inj h ▸ hc
    · exact ih h

theorem collapse_spaced (inRun : Bool) (l : List α) : Spaced p sep (collapse p sep inRun l) := by
  induction l generalizing inRun with
  | nil => exact spaced_nil
  | cons c l ih =>
    rw [collapse]
    split
    · next hc => exact spaced_cons (Or.inl hc) (ih false) fun _ _ => Or.inl hc
    · split
      · exact ih true
      · exact spaced_cons (Or.inr rfl) (ih true) fun d hd => Or.inr (collapse_head hd)

/-- A list of words and single separators is left as it is. -/
theorem collapse_eq_self {inRun : Bool} (h : Spaced p sep l) (head : inRun = true → ∀ c ∈ l.head?, p c = true) :
    collapse p sep inRun l = l := by
  induction l generalizing inRun with
  | nil => rfl
  | cons c l ih =>
    obtain ⟨next, -⟩ := List.isChain_cons.mp h.apart
    have hrest := h.part (List.suffix_cons c l).isInfix
    rw [collapse]
    by_cases hc : p c = true
    · rw [if_pos hc, ih hrest fun h => absurd h Bool.false_ne_true]
    · have hrun : inRun = false := Bool.eq_false_iff.mpr fun hrun => hc (head hrun c rfl)
      obtain rfl : c = sep := (h.chars c (List.mem_cons_self ..)).resolve_left hc
      rw [if_neg hc, hrun, if_neg Bool.false_ne_true, ih hrest fun _ d hd => (next d hd).resolve_left hc]

/-! ### Trimmed lists -/

/-- A list of words and single separators has a word at either end. -/
structure Trimmed (p : α → Bool) (l : List α) : Prop where
  nonempty : l ≠ []
  head : ∀ c ∈ l.head?, p c = true
  last : ∀ c ∈ l.getLast?, p c = true

theorem joined_word (hl : l ≠ []) (h : ∀ c ∈ l, p c = true) : Joined p sep l :=
  ⟨[l], List.cons_ne_nil _ _, fun w hw => List.mem_singleton.mp hw ▸ ⟨hl, h⟩, by simp [List.intercalate]⟩

theorem intercalate_cons {w : List α} {words : List (List α)} (h : words ≠ []) :
    [sep].intercalate (w :: words) = w ++ sep :: [sep].intercalate words := by
  cases words with
  | nil => exact absurd rfl h
  | cons w' words => simp [List.intercalate]

/-- One more letter of the first word. -/
theorem Joined.letter (hc : p c = true) (h : Joined p sep l) : Joined p sep (c :: l) := by
  obtain ⟨words, hne, hwords, rfl⟩ := h
  obtain ⟨w, words, rfl⟩ := List.exists_cons_of_ne_nil hne
  obtain ⟨hw, hrest⟩ := List.forall_mem_cons.mp hwords
  refine ⟨(c :: w) :: words, List.cons_ne_nil _ _, ?_, ?_⟩
  · exact List.forall_mem_cons.mpr ⟨⟨List.cons_ne_nil _ _, List.forall_mem_cons.mpr ⟨hc, hw.2⟩⟩, hrest⟩
  · cases words with
    | nil => simp [List.intercalate]
    | cons w' words => rw [intercalate_cons (List.cons_ne_nil _ _), intercalate_cons (List.cons_ne_nil _ _), List.cons_append]

/-- One more word, of one letter. -/
theorem Joined.word (hc : p c = true) (h : Joined p sep l) : Joined p sep (c :: sep :: l) := by
  obtain ⟨words, hne, hwords, rfl⟩ := h
  refine ⟨[c] :: words, List.cons_ne_nil _ _, List.forall_mem_cons.mpr ⟨⟨List.cons_ne_nil _ _, ?_⟩, hwords⟩, ?_⟩
  · exact fun d hd => List.mem_singleton.mp hd ▸ hc
  · rw [intercalate_cons hne]
    rfl

theorem Spaced.joined : ∀ {l : List α}, Spaced p sep l → Trimmed p l → Joined p sep l
  | [], _, ht => absurd rfl ht.nonempty
  | [c], _, ht => joined_word (List.cons_ne_nil _ _) fun d hd => List.mem_singleton.mp hd ▸ ht.head c rfl
  | c :: d :: l, h, ht => by
    have hc := ht.head c rfl
    have hlast : ∀ x ∈ (d :: l).getLast?, p x = true := by
      simpa only [List.getLast?_cons_cons] using ht.last
    have hrest := h.part (List.suffix_cons c (d :: l)).isInfix
    by_cases hd : p d = true
    · exact (hrest.joined ⟨List.cons_ne_nil _ _, fun x hx => Option.some.inj hx ▸ hd, hlast⟩).letter hc
    · have hsep : d = sep := (hrest.chars d (List.mem_cons_self ..)).resolve_left hd
      rw [hsep] at hrest hlast hd ⊢
      -- A separator is not the last element, and a word follows it.
      cases l with
      | nil => exact absurd (hlast sep rfl) hd
      | cons e l =>
        have he : p e = true := ((List.isChain_cons.mp hrest.apart).1 e rfl).resolve_left hd
        refine Joined.word hc ((hrest.part (List.suffix_cons sep (e :: l)).isInfix).joined ?_)
        exact ⟨List.cons_ne_nil _ _, fun x hx => Option.some.inj hx ▸ he, by simpa only [List.getLast?_cons_cons] using hlast⟩

theorem spaced_word (h : ∀ c ∈ l, p c = true) : Spaced p sep l := by
  induction l with
  | nil => exact spaced_nil
  | cons c l ih =>
    obtain ⟨hc, hl⟩ := List.forall_mem_cons.mp h
    exact spaced_cons (Or.inl hc) (ih hl) fun _ _ => Or.inl hc

theorem Joined.trimmed (h : Joined p sep l) : Spaced p sep l ∧ Trimmed p l := by
  obtain ⟨words, hne, hwords, rfl⟩ := h
  induction words with
  | nil => exact absurd rfl hne
  | cons w words ih =>
    obtain ⟨⟨hw, hp⟩, hrest⟩ := List.forall_mem_cons.mp hwords
    have hhead : ∀ {l : List α}, ∀ c ∈ (w ++ l).head?, p c = true := fun c hc => by
      rw [List.head?_append_of_ne_nil _ hw] at hc
      exact hp c (List.mem_of_mem_head? hc)
    by_cases hwords : words = []
    · subst hwords
      have hone : [sep].intercalate [w] = w ++ [] := by simp [List.intercalate]
      rw [hone]
      refine ⟨spaced_word (by simpa using hp), by simpa using hw, hhead, fun c hc => hp c ?_⟩
      exact List.mem_of_mem_getLast? (by simpa using hc)
    · obtain ⟨hspaced, htrimmed⟩ := ih hwords hrest
      rw [intercalate_cons hwords]
      have hsep : Spaced p sep (sep :: [sep].intercalate words) :=
        spaced_cons (Or.inr rfl) hspaced fun d hd => Or.inr (htrimmed.head d hd)
      refine ⟨⟨?_, ?_⟩, by simp, hhead, fun c hc => htrimmed.last c ?_⟩
      · exact List.forall_mem_append.mpr ⟨fun c hc => Or.inl (hp c hc), hsep.chars⟩
      · have hword : Spaced p sep _ := spaced_word hp
        refine List.isChain_append.mpr ⟨hword.apart, hsep.apart, fun x hx _ _ => Or.inl ?_⟩
        exact hp x (List.mem_of_mem_getLast? hx)
      · rw [List.getLast?_append_of_ne_nil _ (List.cons_ne_nil _ _)] at hc
        obtain ⟨d, rest, hd⟩ := List.exists_cons_of_ne_nil htrimmed.nonempty
        rw [hd, List.getLast?_cons_cons, ← hd] at hc
        exact hc

/-! ### Trimming and cutting -/

section
variable {q : α → Bool}

theorem Trimmed.dropWhile_eq_self (h : Trimmed p l) (hq : ∀ c, p c = true → q c = false) : l.dropWhile q = l := by
  obtain ⟨c, l', rfl⟩ := List.exists_cons_of_ne_nil h.nonempty
  rw [List.dropWhile_cons_of_neg (by simp [hq c (h.head c rfl)])]

theorem Trimmed.rdropWhile_eq_self (h : Trimmed p l) (hq : ∀ c, p c = true → q c = false) : l.rdropWhile q = l := by
  refine List.rdropWhile_eq_self_iff.mpr fun hl => ?_
  simp [hq _ (h.last _ (List.getLast?_eq_some_getLast hl))]

theorem head_prefix (hl : l' <+: l) (head : ∀ c ∈ l.head?, p c = true) : ∀ c ∈ l'.head?, p c = true := by
  obtain ⟨rest, rfl⟩ := hl
  intro c hc
  refine head c ?_
  rw [List.head?_append, Option.mem_def.mp hc]
  rfl

/-- What is left of words and single separators that begin with a word, when separators at the end are dropped. -/
theorem Spaced.rdropWhile_joined (h : Spaced p sep l) (head : ∀ c ∈ l.head?, p c = true)
    (hq : ∀ c, q c = false → c ≠ sep) : l.rdropWhile q = [] ∨ Joined p sep (l.rdropWhile q) := by
  by_cases hl : l.rdropWhile q = []
  · exact Or.inl hl
  have hfront : l.rdropWhile q <+: l := List.rdropWhile_prefix q l
  have hspaced := h.part hfront.isInfix
  refine Or.inr (hspaced.joined ⟨hl, head_prefix hfront head, fun c hc => ?_⟩)
  rw [List.getLast?_eq_some_getLast hl] at hc
  obtain rfl := Option.some.inj hc
  have hlast : q _ = false := Bool.eq_false_iff.mpr (List.rdropWhile_last_not q l hl)
  exact (hspaced.chars _ (List.getLast_mem hl)).resolve_right (hq _ hlast)

/-- Words and single separators begin with a word once the separators in front are dropped. -/
theorem Spaced.dropWhile_head (h : Spaced p sep l) (hq : ∀ c, q c = false → c ≠ sep) :
    ∀ c ∈ (l.dropWhile q).head?, p c = true := by
  intro c hc
  have hmem : c ∈ l := (List.dropWhile_sublist q).subset (List.mem_of_mem_head? hc)
  have hnot : q c = false := by
    have := List.head?_dropWhile_not q l
    rw [Option.mem_def.mp hc] at this
    simpa using this
  exact (h.chars c hmem).resolve_right (hq c hnot)

end

end Words
