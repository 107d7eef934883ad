import Mathlib.Data.Char
import Mathlib.Data.List.Lex
import Mathlib.Order.Lattice

/-!
# `Lib.Utf8` — byte order and prefixes of UTF-8 text

Texts are ordered, and are prefixes of each other, exactly as their bytes are. `upperBound` is the least text above
all texts with a prefix.
-/

abbrev Bytes := List UInt8

instance UInt8.linearOrder : LinearOrder UInt8 where
  le_refl := UInt8.le_refl
  le_trans _ _ _ := UInt8.le_trans
  lt_iff_le_not_ge a b := by
    rw [UInt8.lt_iff_toNat_lt, UInt8.le_iff_toNat_le, UInt8.le_iff_toNat_le]
    omega
  le_antisymm _ _ := UInt8.le_antisymm
  le_total := UInt8.le_total
  toDecidableLE := inferInstance
  toDecidableEq := inferInstance
  toDecidableLT := inferInstance
  min_def _ _ := rfl
  max_def _ _ := rfl

/-! ## Lexicographic order -/

section Lex

variable {α : Type} [LinearOrder α] {s t : List α} {a b : α} {p : List α}

theorem List.cons_le_cons_iff_lt_or_eq : a :: s ≤ b :: t ↔ a < b ∨ (a = b ∧ s ≤ t) := by
  rw [← not_lt, List.cons_lt_cons_iff, not_or, not_lt, not_and, ← not_lt (a := t)]
  constructor
  · rintro ⟨hab, h⟩
    rcases lt_or_eq_of_le hab with hlt | rfl
    · exact .inl hlt
    · exact .inr ⟨rfl, h rfl⟩
  · rintro (h | ⟨rfl, h⟩)
    · exact ⟨le_of_lt h, fun heq => absurd (heq ▸ h) (lt_irrefl _)⟩
    · exact ⟨le_refl _, fun _ => h⟩

theorem List.le_of_prefix (h : p <+: s) : p ≤ s := by
  obtain ⟨t, rfl⟩ := h
  induction p with
  | nil => exact not_lt.mp (List.not_lt_nil _)
  | cons a p ih => exact List.cons_le_cons_iff_lt_or_eq.mpr (.inr ⟨rfl, ih⟩)

theorem List.prefix_of_between (hps : p ≤ s) (hst : s ≤ t) (hpt : p <+: t) : p <+: s := by
  induction p generalizing s t with
  | nil => exact List.nil_prefix
  | cons a p ih =>
    obtain ⟨u, rfl⟩ := hpt
    cases s with
    | nil => exact absurd (List.nil_lt_cons a p) (not_lt.mpr hps)
    | cons b s =>
      rw [List.cons_append] at hst
      rcases List.cons_le_cons_iff_lt_or_eq.mp hps with h | ⟨rfl, h⟩
      · rcases List.cons_le_cons_iff_lt_or_eq.mp hst with h' | ⟨rfl, -⟩
        · exact absurd (lt_trans h h') (lt_irrefl _)
        · exact absurd h (lt_irrefl _)
      · rcases List.cons_le_cons_iff_lt_or_eq.mp hst with h' | ⟨-, h'⟩
        · exact absurd h' (lt_irrefl _)
        · exact List.cons_prefix_cons.mpr ⟨rfl, ih h h' (List.prefix_append _ _)⟩

/-- The two lists differ at some place, where the first has the smaller element. -/
def Diverges (s t : List α) : Prop := ∃ p a b u w, s = p ++ a :: u ∧ t = p ++ b :: w ∧ a < b

theorem Diverges.append (h : Diverges s t) (u w : List α) : Diverges (s ++ u) (t ++ w) := by
  obtain ⟨p, a, b, u', w', rfl, rfl, hab⟩ := h
  exact ⟨p, a, b, u' ++ u, w' ++ w, by simp, by simp, hab⟩

theorem Diverges.lt (h : Diverges s t) : s < t := by
  obtain ⟨p, a, b, u, w, rfl, rfl, hab⟩ := h
  exact List.append_left_lt (List.cons_lt_cons_iff.mpr (.inl hab))

theorem Diverges.cons (a : α) (h : Diverges s t) : Diverges (a :: s) (a :: t) := by
  obtain ⟨p, x, y, u, w, rfl, rfl, hxy⟩ := h
  exact ⟨a :: p, x, y, u, w, rfl, rfl, hxy⟩

theorem Diverges.head (h : a < b) (s t : List α) : Diverges (a :: s) (b :: t) :=
  ⟨[], a, b, s, t, rfl, rfl, h⟩

theorem Diverges.not_prefix (h : Diverges s t) : ¬s <+: t := by
  obtain ⟨p, a, b, u, w, rfl, rfl, hab⟩ := h
  rw [List.prefix_append_right_inj, List.cons_prefix_cons]
  rintro ⟨rfl, -⟩
  exact lt_irrefl _ hab

end Lex

/-! ## Cutting at a separator -/

section Cut

variable {α : Type} [DecidableEq α]

/-- What stands before and after the first separator. -/
def cut (sep : List α) : List α → Option (List α × List α)
  | [] => if sep = [] then some ([], []) else none
  | a :: rest =>
    if sep <+: a :: rest then some ([], (a :: rest).drop sep.length)
    else (cut sep rest).map fun (before, after) => (a :: before, after)

variable {sep s : List α} {before after : List α}

/-- **`cut` finds the first separator.** -/
theorem cut_eq_some (h : cut sep s = some (before, after)) :
    s = before ++ sep ++ after ∧ ∀ u v, s = u ++ sep ++ v → before.length ≤ u.length := by
  induction s generalizing before with
  | nil =>
    unfold cut at h
    split at h
    · next hsep =>
      cases h
      exact ⟨by rw [hsep]; rfl, fun u v _ => Nat.zero_le _⟩
    · cases h
  | cons a s ih =>
    unfold cut at h
    split at h
    · next hpre =>
      obtain ⟨t, ht⟩ := hpre
      rw [← ht, List.drop_left] at h
      cases h
      exact ⟨ht.symm, fun u v _ => Nat.zero_le _⟩
    · next hpre =>
      obtain ⟨⟨before', after'⟩, hcut, heq⟩ := Option.map_eq_some_iff.mp h
      cases heq
      obtain ⟨hs, hfirst⟩ := ih hcut
      refine ⟨by rw [hs]; rfl, ?_⟩
      intro u v huv
      cases u with
      | nil => exact absurd ⟨v, huv.symm⟩ hpre
      | cons b u =>
        obtain ⟨-, hrest⟩ := List.cons.inj huv
        exact Nat.succ_le_succ (hfirst u v hrest)

theorem cut_isSome {u v : List α} (h : s = u ++ sep ++ v) : (cut sep s).isSome = true := by
  induction s generalizing u with
  | nil =>
    obtain ⟨hus, -⟩ := List.append_eq_nil_iff.mp h.symm
    obtain ⟨-, hsep⟩ := List.append_eq_nil_iff.mp hus
    unfold cut
    rw [if_pos hsep]
    rfl
  | cons a s ih =>
    unfold cut
    split
    · rfl
    next hpre =>
    cases u with
    | nil => exact absurd ⟨v, h.symm⟩ hpre
    | cons b u =>
      obtain ⟨-, hrest⟩ := List.cons.inj h
      rw [Option.isSome_map]
      exact ih hrest

/-- **The first separator is found by what stands up to it.** -/
theorem cut_congr (h : cut sep s = some (before, after)) (after' : List α) :
    cut sep (before ++ sep ++ after') = some (before, after') := by
  obtain ⟨hs, hfirst⟩ := cut_eq_some h
  have hsome : (cut sep (before ++ sep ++ after')).isSome = true := cut_isSome rfl
  obtain ⟨⟨b, a⟩, hcut⟩ := Option.isSome_iff_exists.mp hsome
  obtain ⟨heq, hmin⟩ := cut_eq_some hcut
  have hle : b.length ≤ before.length := hmin before after' rfl
  -- a separator found earlier would stand earlier in the first list too
  have hpre : b ++ sep <+: before ++ sep := by
    have h₁ : b ++ sep <+: before ++ sep ++ after' := ⟨a, heq.symm⟩
    refine List.prefix_of_prefix_length_le h₁ (List.prefix_append _ _) ?_
    rw [List.length_append, List.length_append]
    omega
  obtain ⟨t, ht⟩ := hpre
  have hge : before.length ≤ b.length := hfirst b (t ++ after) (by rw [hs, ← ht, List.append_assoc])
  rw [List.append_assoc, List.append_assoc] at heq
  obtain ⟨rfl, hrest⟩ := List.append_inj heq (Nat.le_antisymm hge hle)
  rw [hcut, List.append_cancel_left hrest]

end Cut

namespace Utf8

/-! ## Characters -/

abbrev encode (c : Char) : Bytes := String.utf8EncodeChar c

variable {n : Nat} {c : Char} {cs ds : List Char} {m : Nat} {d : Char}

theorem ofNat_lt_ofNat (hn : n < 256) (h : m < n) : UInt8.ofNat m < UInt8.ofNat n := by
  rw [UInt8.lt_iff_toNat_lt, UInt8.toNat_ofNat', UInt8.toNat_ofNat', Nat.mod_eq_of_lt hn,
    Nat.mod_eq_of_lt (Nat.lt_trans h hn)]
  exact h

theorem diverges_step {s t : Bytes} (hn : n < 256) (h : m < n ∨ (m = n ∧ Diverges s t)) :
    Diverges (UInt8.ofNat m :: s) (UInt8.ofNat n :: t) := by
  rcases h with h | ⟨rfl, h⟩
  · exact .head (ofNat_lt_ofNat hn h) _ _
  · exact h.cons _

theorem val_le (c : Char) : c.val.toNat ≤ 0x10ffff := by
  rcases c.valid with h | ⟨-, h⟩
  · exact Nat.le_of_lt (Nat.lt_of_lt_of_le h (by decide))
  · exact Nat.le_of_lt_succ h

/-- **The bytes of characters diverge in the order of the characters.** -/
theorem encode_diverges (h : c < d) : Diverges (encode c) (encode d) := by
  have hcd : c.val.toNat < d.val.toNat := h
  have hd := val_le d
  unfold encode String.utf8EncodeChar
  generalize c.val.toNat = m at hcd
  generalize d.val.toNat = n at hcd hd
  dsimp only
  -- characters of different sizes differ in the first byte, others in the first digit that differs
  by_cases hn₁ : n ≤ 127
  · rw [if_pos hn₁, if_pos (by omega)]
    exact diverges_step (by omega) (.inl hcd)
  by_cases hn₂ : n ≤ 2047
  · rw [if_neg hn₁, if_pos hn₂]
    split
    · exact diverges_step (by omega) (.inl (by omega))
    rw [if_pos (by omega)]
    refine diverges_step (by omega) ?_
    by_cases h₁ : m / 64 = n / 64
    · exact .inr ⟨by omega, diverges_step (by omega) (.inl (by omega))⟩
    · exact .inl (by omega)
  by_cases hn₃ : n ≤ 65535
  · rw [if_neg hn₁, if_neg hn₂, if_pos hn₃]
    split
    · exact diverges_step (by omega) (.inl (by omega))
    split
    · exact diverges_step (by omega) (.inl (by omega))
    rw [if_pos (by omega)]
    refine diverges_step (by omega) ?_
    by_cases h₁ : m / 4096 = n / 4096
    · refine .inr ⟨by omega, diverges_step (by omega) ?_⟩
      by_cases h₂ : m / 64 = n / 64
      · exact .inr ⟨by omega, diverges_step (by omega) (.inl (by omega))⟩
      · exact .inl (by omega)
    · exact .inl (by omega)
  · rw [if_neg hn₁, if_neg hn₂, if_neg hn₃]
    split
    · exact diverges_step (by omega) (.inl (by omega))
    split
    · exact diverges_step (by omega) (.inl (by omega))
    split
    · exact diverges_step (by omega) (.inl (by omega))
    refine diverges_step (by omega) ?_
    by_cases h₁ : m / 262144 = n / 262144
    · refine .inr ⟨by omega, diverges_step (by omega) ?_⟩
      by_cases h₂ : m / 4096 = n / 4096
      · refine .inr ⟨by omega, diverges_step (by omega) ?_⟩
        by_cases h₃ : m / 64 = n / 64
        · exact .inr ⟨by omega, diverges_step (by omega) (.inl (by omega))⟩
        · exact .inl (by omega)
      · exact .inl (by omega)
    · exact .inl (by omega)

/-! ## Texts -/

def utf8 (cs : List Char) : Bytes := cs.flatMap encode

@[simp] theorem utf8_nil : utf8 [] = [] := rfl

@[simp] theorem utf8_cons (c : Char) (cs : List Char) : utf8 (c :: cs) = encode c ++ utf8 cs := rfl

theorem utf8_append (cs ds : List Char) : utf8 (cs ++ ds) = utf8 cs ++ utf8 ds := List.flatMap_append

theorem encode_ne_nil (c : Char) : encode c ≠ [] := by
  intro h
  have hlen : (encode c).length = c.utf8Size := String.length_utf8EncodeChar c
  rw [h] at hlen
  exact absurd hlen.symm (Nat.ne_of_gt c.utf8Size_pos)

theorem utf8_eq_nil : utf8 cs = [] ↔ cs = [] := by
  cases cs with
  | nil => simp
  | cons c cs => simp [encode_ne_nil c]

theorem utf8_lt (h : cs < ds) : utf8 cs < utf8 ds := by
  induction cs generalizing ds with
  | nil =>
    cases ds with
    | nil => exact absurd h (lt_irrefl _)
    | cons d ds =>
      cases hd : encode d with
      | nil => exact absurd hd (encode_ne_nil d)
      | cons b bs => rw [utf8_nil, utf8_cons, hd]; exact List.nil_lt_cons _ _
  | cons c cs ih =>
    cases ds with
    | nil => exact absurd h (List.not_lt_nil _)
    | cons d ds =>
      rw [utf8_cons, utf8_cons]
      rcases List.cons_lt_cons_iff.mp h with hcd | ⟨rfl, hrest⟩
      · exact ((encode_diverges hcd).append _ _).lt
      · exact List.append_left_lt (ih hrest)

/-- **The byte order of texts is their order by code point.** -/
theorem utf8_lt_iff : utf8 cs < utf8 ds ↔ cs < ds := by
  refine ⟨fun h => ?_, utf8_lt⟩
  rcases lt_trichotomy cs ds with hlt | rfl | hgt
  · exact hlt
  · exact absurd h (lt_irrefl _)
  · exact absurd (lt_trans h (utf8_lt hgt)) (lt_irrefl _)

theorem utf8_le_iff : utf8 cs ≤ utf8 ds ↔ cs ≤ ds := by
  rw [← not_lt, ← not_lt, utf8_lt_iff]

theorem utf8_injective : Function.Injective utf8 := by
  intro cs ds h
  rcases lt_trichotomy cs ds with hlt | rfl | hgt
  · exact absurd h (ne_of_lt (utf8_lt hlt))
  · rfl
  · exact absurd h.symm (ne_of_lt (utf8_lt hgt))

/-- **A text is a prefix exactly if its bytes are.** -/
theorem utf8_prefix_iff : utf8 cs <+: utf8 ds ↔ cs <+: ds := by
  constructor
  · intro h
    induction cs generalizing ds with
    | nil => exact List.nil_prefix
    | cons c cs ih =>
      cases ds with
      | nil =>
        rw [utf8_nil, List.prefix_nil, utf8_eq_nil] at h
        cases h
      | cons d ds =>
        rcases lt_trichotomy c d with hlt | rfl | hgt
        · have hdiv : Diverges (utf8 (c :: cs)) (utf8 (d :: ds)) := (encode_diverges hlt).append _ _
          exact absurd h hdiv.not_prefix
        · rw [utf8_cons, utf8_cons, List.prefix_append_right_inj] at h
          exact List.cons_prefix_cons.mpr ⟨rfl, ih h⟩
        · have hdiv : Diverges (utf8 (d :: ds)) (utf8 (c :: cs)) := (encode_diverges hgt).append _ _
          exact absurd (List.le_of_prefix h) (not_le.mpr hdiv.lt)
  · rintro ⟨t, rfl⟩
    rw [utf8_append]
    exact List.prefix_append _ _

def Valid (s : Bytes) : Prop := ∃ cs, s = utf8 cs

/-! ## The least text above a prefix -/

def maxRune : Char := Char.ofNat 0x10FFFF

/-- The next code point; the surrogates are skipped. -/
def nextRune (c : Char) : Char := if c.toNat = 0xD7FF then Char.ofNat 0xE000 else Char.ofNat (c.toNat + 1)

/-- Raise the last character that can be raised and cut what follows it. -/
def upperBound : List Char → Option (List Char)
  | [] => none
  | c :: cs =>
    match upperBound cs with
    | some us => some (c :: us)
    | none => if c = maxRune then none else some [nextRune c]

theorem toNat_nextRune (h : c ≠ maxRune) :
    (nextRune c).toNat = if c.toNat = 0xD7FF then 0xE000 else c.toNat + 1 := by
  have hmax : c.toNat ≠ 0x10FFFF := fun heq => h (by
    rw [← Char.ofNat_toNat c, heq]
    rfl)
  have hvalid : c.toNat < 0xD800 ∨ (0xDFFF < c.toNat ∧ c.toNat < 0x110000) := c.valid
  unfold nextRune
  split
  · rfl
  next hne =>
  have hnext : (c.toNat + 1).isValidChar := by
    show c.toNat + 1 < 0xD800 ∨ (0xDFFF < c.toNat + 1 ∧ c.toNat + 1 < 0x110000)
    omega
  unfold Char.ofNat
  rw [dif_pos hnext]
  rfl

theorem lt_nextRune (h : c ≠ maxRune) : c < nextRune c := by
  show c.toNat < (nextRune c).toNat
  rw [toNat_nextRune h]
  split <;> omega

theorem nextRune_le (h : c < d) : nextRune c ≤ d := by
  have hcd : c.toNat < d.toNat := h
  have hd : d.toNat < 0xD800 ∨ (0xDFFF < d.toNat ∧ d.toNat < 0x110000) := d.valid
  have hne : c ≠ maxRune := by
    rintro rfl
    have hmax : maxRune.toNat = 0x10FFFF := rfl
    omega
  show (nextRune c).toNat ≤ d.toNat
  rw [toNat_nextRune hne]
  split <;> omega

theorem le_maxRune (c : Char) : c ≤ maxRune := by
  have hvalid : c.toNat < 0xD800 ∨ (0xDFFF < c.toNat ∧ c.toNat < 0x110000) := c.valid
  show c.toNat ≤ 0x10FFFF
  omega

/-- **Without a bound every greater text has the prefix.** -/
theorem prefix_of_upperBound_none (h : upperBound cs = none) (hle : cs ≤ ds) : cs <+: ds := by
  induction cs generalizing ds with
  | nil => exact List.nil_prefix
  | cons c cs ih =>
    cases ds with
    | nil => exact absurd (List.nil_lt_cons c cs) (not_lt.mpr hle)
    | cons d ds =>
      unfold upperBound at h
      cases hcs : upperBound cs with
      | some us => rw [hcs] at h; cases h
      | none =>
        rw [hcs] at h
        have hc : c = maxRune := by
          by_contra hne
          simp [hne] at h
        rcases List.cons_le_cons_iff_lt_or_eq.mp hle with hlt | ⟨rfl, hrest⟩
        · rw [hc] at hlt
          exact absurd hlt (not_lt.mpr (le_maxRune d))
        · exact List.cons_prefix_cons.mpr ⟨rfl, ih hcs hrest⟩

/-- **The texts with a prefix are those from the prefix up to the bound.** -/
theorem lt_upperBound_iff {us : List Char} (h : upperBound cs = some us) (hle : cs ≤ ds) : ds < us ↔ cs <+: ds := by
  induction cs generalizing us ds with
  | nil => cases h
  | cons c cs ih =>
    cases ds with
    | nil => exact absurd (List.nil_lt_cons c cs) (not_lt.mpr hle)
    | cons d ds =>
      unfold upperBound at h
      rw [List.cons_prefix_cons]
      cases hcs : upperBound cs with
      | some us' =>
        rw [hcs] at h
        cases h
        rw [List.cons_lt_cons_iff]
        rcases List.cons_le_cons_iff_lt_or_eq.mp hle with hlt | ⟨rfl, hrest⟩
        · constructor
          · rintro (h' | ⟨rfl, -⟩)
            · exact absurd (lt_trans hlt h') (lt_irrefl _)
            · exact absurd hlt (lt_irrefl _)
          · rintro ⟨rfl, -⟩
            exact absurd hlt (lt_irrefl _)
        · rw [ih hcs hrest]
          simp
      | none =>
        rw [hcs] at h
        have hne : c ≠ maxRune := by
          rintro rfl
          simp at h
        simp only [hne, if_false, Option.some.injEq] at h
        subst h
        rw [List.cons_lt_cons_iff]
        rcases List.cons_le_cons_iff_lt_or_eq.mp hle with hlt | ⟨rfl, hrest⟩
        · constructor
          · rintro (h' | ⟨-, h'⟩)
            · exact absurd h' (not_lt.mpr (nextRune_le hlt))
            · exact absurd h' (List.not_lt_nil _)
          · rintro ⟨rfl, -⟩
            exact absurd hlt (lt_irrefl _)
        · exact ⟨fun _ => ⟨rfl, prefix_of_upperBound_none hcs hrest⟩, fun _ => .inl (lt_nextRune hne)⟩

/-! ## Character boundaries -/

/-- **The first byte of a character stands at a boundary.** -/
theorem boundary_of_firstByte {j : Nat} {b : UInt8} {rest : Bytes} (h : (utf8 cs).drop j = b :: rest)
    (hb : b.IsUTF8FirstByte) :
    ∃ as bs, cs = as ++ bs ∧ (utf8 cs).take j = utf8 as ∧ (utf8 cs).drop j = utf8 bs := by
  induction cs generalizing j with
  | nil => simp at h
  | cons c cs ih =>
    by_cases hj : j = 0
    · subst hj
      exact ⟨[], c :: cs, rfl, rfl, rfl⟩
    rw [utf8_cons] at h ⊢
    by_cases hlt : j < (encode c).length
    · -- inside a character there are only continuation bytes
      rw [List.drop_append_of_le_length (Nat.le_of_lt hlt), List.drop_eq_getElem_cons hlt, List.cons_append] at h
      obtain ⟨hfirst, -⟩ := List.cons.inj h
      rw [← hfirst] at hb
      exact absurd (UInt8.isUTF8FirstByte_getElem_utf8EncodeChar.mp hb) hj
    · obtain ⟨i, rfl⟩ := Nat.exists_eq_add_of_le (Nat.le_of_not_lt hlt)
      rw [List.drop_length_add_append] at h ⊢
      rw [List.take_length_add_append]
      obtain ⟨as, bs, rfl, htake, hdrop⟩ := ih h
      exact ⟨c :: as, bs, rfl, by rw [htake, utf8_cons], hdrop⟩

theorem exists_firstByte (h : cs ≠ []) : ∃ b rest, utf8 cs = b :: rest ∧ b.IsUTF8FirstByte := by
  cases cs with
  | nil => exact absurd rfl h
  | cons c cs =>
    have hlt : 0 < (encode c).length := List.length_pos_iff.mpr (encode_ne_nil c)
    refine ⟨(encode c)[0], (encode c).drop 1 ++ utf8 cs, ?_, UInt8.isUTF8FirstByte_getElem_zero_utf8EncodeChar⟩
    rw [utf8_cons, ← List.cons_append, ← List.drop_eq_getElem_cons hlt, List.drop_zero]

/-! ## Decoding -/

/-- The characters of a byte string, up to `n` of them; a byte that does not begin a character is read as
    U+FFFD. -/
def runesUpTo : Nat → Bytes → List Char
  | 0, _ => []
  | _ + 1, [] => []
  | n + 1, b :: rest =>
    match (b :: rest).toByteArray.utf8DecodeChar? 0 with
    | some c => c :: runesUpTo n ((b :: rest).drop c.utf8Size)
    | none => Char.ofNat 0xFFFD :: runesUpTo n rest

def runes (s : Bytes) : List Char := runesUpTo s.length s

theorem runesUpTo_utf8 (h : cs.length ≤ n) : runesUpTo n (utf8 cs) = cs := by
  induction cs generalizing n with
  | nil => cases n <;> rfl
  | cons c cs ih =>
    obtain ⟨m, rfl⟩ : ∃ m, n = m + 1 := ⟨n - 1, by simp at h; omega⟩
    obtain ⟨b, rest, hb⟩ := List.exists_cons_of_ne_nil (mt utf8_eq_nil.mp (List.cons_ne_nil c cs))
    have hdecode : (utf8 (c :: cs)).toByteArray.utf8DecodeChar? 0 = some c := by
      rw [utf8_cons, List.toByteArray_append]
      exact ByteArray.utf8DecodeChar?_utf8EncodeChar_append
    have hdrop : (utf8 (c :: cs)).drop c.utf8Size = utf8 cs := by
      rw [utf8_cons, ← String.length_utf8EncodeChar c, List.drop_left]
    rw [hb] at hdecode hdrop ⊢
    simp only [runesUpTo, hdecode, hdrop]
    rw [ih (by simpa using h)]

theorem length_le_utf8 (cs : List Char) : cs.length ≤ (utf8 cs).length := by
  induction cs with
  | nil => exact Nat.le_refl _
  | cons c cs ih =>
    have hpos : 0 < (encode c).length := List.length_pos_iff.mpr (encode_ne_nil c)
    rw [utf8_cons, List.length_append, List.length_cons]
    omega

theorem runes_utf8 (cs : List Char) : runes (utf8 cs) = cs := runesUpTo_utf8 (length_le_utf8 cs)

end Utf8
