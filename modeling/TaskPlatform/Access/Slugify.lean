import TaskPlatform.Library.Words

/-! `slugify`: the slug of a workspace. -/

namespace TaskPlatform.Slugify

/-- What `trim` strips: white space and line terminators of JavaScript. -/
def isSpace (c : Char) : Bool :=
  c.toNat ∈ [0x09, 0x0A, 0x0B, 0x0C, 0x0D, 0x20, 0xA0, 0x1680, 0x2028, 0x2029, 0x202F, 0x205F, 0x3000, 0xFEFF] ||
    (0x2000 ≤ c.toNat && c.toNat ≤ 0x200A)

/-- `[a-z0-9]`. -/
def isSlugChar (c : Char) : Bool := ('a' ≤ c && c ≤ 'z') || ('0' ≤ c && c ≤ '9')

/-- Strips the characters of a kind at both ends. -/
def strip (p : Char → Bool) (cs : List Char) : List Char := (cs.dropWhile p).rdropWhile p

/-- `replace(/[^a-z0-9]+/g, '-')`. `inRun` says whether the character before belongs to a run that was replaced. -/
def hyphenate : Bool → List Char → List Char
  | _, [] => []
  | inRun, c :: cs =>
    if isSlugChar c then c :: hyphenate false cs
    else if inRun then hyphenate true cs
    else '-' :: hyphenate true cs

/-- Lowercases and hyphenates a string into a slug of at most 60 characters. -/
def slugify (toLowerCase : String → String) (input : String) : String :=
  let words := strip (· = '-') (hyphenate false (strip isSpace (toLowerCase input).toList))
  let slug := (words.take 60).rdropWhile (· = '-')
  if slug = [] then "workspace" else String.ofList slug

example : slugify (fun s => s) " acme  corp! " = "acme-corp" := by decide

/-! ### What a slug looks like -/

/-- At most 60 characters: runs of `[a-z0-9]`, joined by single hyphens. -/
def IsSlug (s : String) : Prop := s.length ≤ 60 ∧ Words.Joined isSlugChar '-' s.toList

theorem hyphenate_eq (inRun : Bool) (cs : List Char) :
    hyphenate inRun cs = Words.collapse isSlugChar '-' inRun cs := by
  induction cs generalizing inRun with
  | nil => rfl
  | cons c cs ih => simp only [hyphenate, Words.collapse, ih]

/-- The codes of the characters of a run. -/
theorem slugChar_code {c : Char} (h : isSlugChar c = true) :
    (97 ≤ c.toNat ∧ c.toNat ≤ 122) ∨ (48 ≤ c.toNat ∧ c.toNat ≤ 57) := by
  simp only [isSlugChar, Bool.or_eq_true, Bool.and_eq_true, decide_eq_true_eq, Char.le_def, UInt32.le_iff_toNat_le] at h
  exact h

theorem not_space {c : Char} (h : isSlugChar c = true) : isSpace c = false := by
  have hcode := slugChar_code h
  simp only [isSpace, Bool.or_eq_false_iff, Bool.and_eq_false_iff, decide_eq_false_iff_not, List.mem_cons, not_or,
    List.not_mem_nil, not_false_eq_true, and_true]
  refine ⟨⟨?_, ?_⟩, ?_⟩ <;> omega

theorem not_hyphen {c : Char} (h : isSlugChar c = true) : decide (c = '-') = false := by
  refine decide_eq_false ?_
  rintro rfl
  exact absurd h (by decide)

theorem isSlug_workspace : IsSlug "workspace" :=
  ⟨by decide, Words.joined_word (by simp) (by simp [isSlugChar])⟩

theorem slugify_isSlug (toLowerCase : String → String) (s : String) : IsSlug (slugify toLowerCase s) := by
  have hspaced : Words.Spaced isSlugChar '-' (Words.collapse isSlugChar '-' false (strip isSpace (toLowerCase s).toList)) :=
    Words.collapse_spaced false _
  have hsep : ∀ c, decide (c = '-') = false → c ≠ '-' := fun c => of_decide_eq_false
  rw [← hyphenate_eq] at hspaced
  rw [slugify]
  generalize hyphenate false (strip isSpace (toLowerCase s).toList) = cs at hspaced ⊢
  -- What is dropped at the right and cut off leaves a prefix of the rest; then hyphens at the cut are dropped.
  have hfront : (strip (fun c => decide (c = '-')) cs).take 60 <+: cs.dropWhile fun c => decide (c = '-') :=
    (List.take_prefix 60 _).trans (List.rdropWhile_prefix _ _)
  have hcut := hspaced.part (hfront.isInfix.trans (List.dropWhile_suffix _).isInfix)
  rcases hcut.rdropWhile_joined (Words.head_prefix hfront (hspaced.dropWhile_head hsep)) hsep with hnil | hjoined
  · rw [if_pos hnil]
    exact isSlug_workspace
  · rw [if_neg hjoined.trimmed.2.nonempty]
    refine ⟨?_, by rwa [String.toList_ofList]⟩
    rw [String.length_ofList]
    exact (List.rdropWhile_prefix _ _).length_le.trans (List.length_take_le 60 _)

/-- A slug that `toLowerCase` leaves alone is its own slug. -/
theorem IsSlug.slugify_eq_self {toLowerCase : String → String} {s : String} (h : IsSlug s) (lower : toLowerCase s = s) :
    slugify toLowerCase s = s := by
  obtain ⟨hspaced, htrimmed⟩ := h.2.trimmed
  have htrim : strip isSpace s.toList = s.toList := by
    rw [strip, htrimmed.dropWhile_eq_self fun _ => not_space, htrimmed.rdropWhile_eq_self fun _ => not_space]
  have hhyphens : strip (fun c => decide (c = '-')) s.toList = s.toList := by
    rw [strip, htrimmed.dropWhile_eq_self fun _ => not_hyphen, htrimmed.rdropWhile_eq_self fun _ => not_hyphen]
  have hcut : s.toList.take 60 = s.toList := List.take_of_length_le (String.length_toList ▸ h.1)
  have hrun : false = true → ∀ c ∈ s.toList.head?, isSlugChar c = true := fun h => absurd h Bool.false_ne_true
  rw [slugify, lower, htrim, hyphenate_eq, Words.collapse_eq_self hspaced hrun, hhyphens, hcut,
    htrimmed.rdropWhile_eq_self fun _ => not_hyphen, if_neg htrimmed.nonempty, String.ofList_toList]

/-- The result of `slugify` is a slug, and `slugify` leaves it as it is. -/
theorem slugify_normal (toLowerCase : String → String)
    (lower : ∀ s : String, (∀ c ∈ s.toList, isSlugChar c = true ∨ c = '-') → toLowerCase s = s) (s : String) :
    slugify toLowerCase s ≠ "" ∧ (slugify toLowerCase s).length ≤ 60 ∧
      Words.Joined isSlugChar '-' (slugify toLowerCase s).toList ∧
      slugify toLowerCase (slugify toLowerCase s) = slugify toLowerCase s := by
  have hslug := slugify_isSlug toLowerCase s
  obtain ⟨hspaced, htrimmed⟩ := hslug.2.trimmed
  refine ⟨fun hempty => htrimmed.nonempty ?_, hslug.1, hslug.2, hslug.slugify_eq_self (lower _ hspaced.chars)⟩
  rw [hempty, String.toList_empty]

/-- Lower case of `A-Z`. -/
def asciiLower (s : String) : String := String.ofList (s.toList.map Char.toLower)

theorem asciiLower_eq_self {s : String} (h : ∀ c ∈ s.toList, isSlugChar c = true ∨ c = '-') : asciiLower s = s := by
  have hlower : ∀ c ∈ s.toList, c.toLower = c := fun c hc => by
    have hcode : c.toNat < 65 ∨ 90 < c.toNat := by
      rcases h c hc with hc | rfl
      · have := slugChar_code hc
        omega
      · exact Or.inl (by decide)
    refine dif_neg ?_
    rintro ⟨hA, hZ⟩
    have hA : 65 ≤ c.toNat := UInt32.le_iff_toNat_le.mp hA
    have hZ : c.toNat ≤ 90 := UInt32.le_iff_toNat_le.mp hZ
    omega
  rw [asciiLower, List.map_congr_left hlower, List.map_id', String.ofList_toList]

theorem slugify_normal_hello :
    slugify asciiLower "  Hello   World!  " = "hello-world" ∧ slugify asciiLower "hello-world" = "hello-world" := by
  have heq : slugify asciiLower "  Hello   World!  " = "hello-world" := by decide
  refine ⟨heq, ?_⟩
  have hnormal := slugify_normal asciiLower (fun _ => asciiLower_eq_self) "  Hello   World!  "
  rw [heq] at hnormal
  exact hnormal.2.2.2

end TaskPlatform.Slugify
