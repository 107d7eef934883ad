import SynapS3.Listing.Model

/-!
# `Listing.Prefix` — what the prefixes of the listing are

The query's filter is the prefix relation (`caseSensitivePrefix_iff`), `listingCommonPrefix` is the common
prefix of a key (`listingCommonPrefix_eq_some`), and the keys that share one are those from it up to its upper
bound (`lt_prefixUpperBound_iff`). All of it needs that the texts are valid UTF-8.
-/

namespace SynapS3.Listing

open Utf8

/-- `c` is the common prefix of a key: the prefix, and the text after it up to and including the first
    delimiter. -/
def IsCommonPrefix (keyPrefix delimiter key c : Bytes) : Prop :=
  delimiter ≠ [] ∧ ∃ before after, key = keyPrefix ++ before ++ delimiter ++ after ∧
    c = keyPrefix ++ before ++ delimiter ∧
    ∀ u v, key = keyPrefix ++ u ++ delimiter ++ v → before.length ≤ u.length

theorem prefixUpperBound_utf8 (cs : List Char) : prefixUpperBound (utf8 cs) = (upperBound cs).map utf8 := by
  unfold prefixUpperBound
  rw [runes_utf8]

variable {c key : Bytes} {u : Bytes}

theorem lt_prefixUpperBound_iff (hc : Valid c) (hkey : Valid key) (hle : c ≤ key)
    (h : prefixUpperBound c = some u) : key < u ↔ c <+: key := by
  obtain ⟨cs, rfl⟩ := hc
  obtain ⟨ks, rfl⟩ := hkey
  rw [prefixUpperBound_utf8] at h
  obtain ⟨us, hus, rfl⟩ := Option.map_eq_some_iff.mp h
  rw [utf8_lt_iff, utf8_prefix_iff]
  exact lt_upperBound_iff hus (utf8_le_iff.mp hle)

theorem prefix_iff_between (hc : Valid c) (hkey : Valid key) (h : prefixUpperBound c = some u) :
    c <+: key ↔ c ≤ key ∧ key < u := by
  constructor
  · intro hp
    have hle := List.le_of_prefix hp
    exact ⟨hle, (lt_prefixUpperBound_iff hc hkey hle h).mpr hp⟩
  · rintro ⟨hle, hlt⟩
    exact (lt_prefixUpperBound_iff hc hkey hle h).mp hlt

theorem prefix_of_prefixUpperBound_none (hc : Valid c) (hkey : Valid key) (hle : c ≤ key)
    (h : prefixUpperBound c = none) : c <+: key := by
  obtain ⟨cs, rfl⟩ := hc
  obtain ⟨ks, rfl⟩ := hkey
  rw [prefixUpperBound_utf8] at h
  rw [utf8_prefix_iff]
  exact prefix_of_upperBound_none (Option.map_eq_none_iff.mp h) (utf8_le_iff.mp hle)

theorem prefixUpperBound_ne_nil (h : prefixUpperBound c = some u) : u ≠ [] := by
  obtain ⟨us, hus, rfl⟩ := Option.map_eq_some_iff.mp h
  intro hnil
  rw [utf8_eq_nil] at hnil
  subst hnil
  cases hcs : runes c with
  | nil =>
    rw [hcs] at hus
    cases hus
  | cons a as =>
    rw [hcs] at hus
    unfold upperBound at hus
    cases has : upperBound as with
    | some vs =>
      rw [has] at hus
      cases hus
    | none =>
      rw [has] at hus
      by_cases ha : a = maxRune <;> simp [ha] at hus

theorem caseSensitivePrefix_iff {keyPrefix : Bytes} (hp : Valid keyPrefix) (hkey : Valid key) :
    caseSensitivePrefix keyPrefix key = true ↔ keyPrefix <+: key := by
  unfold caseSensitivePrefix
  by_cases hnil : keyPrefix = []
  · rw [if_pos hnil, hnil]
    exact ⟨fun _ => List.nil_prefix, fun _ => rfl⟩
  rw [if_neg hnil]
  cases hu : prefixUpperBound keyPrefix with
  | some u =>
    simp only [decide_eq_true_eq]
    exact (prefix_iff_between hp hkey hu).symm
  | none =>
    simp only [decide_eq_true_eq]
    obtain ⟨ps, rfl⟩ := hp
    obtain ⟨ks, rfl⟩ := hkey
    rw [runes_utf8, runes_utf8]
    constructor
    · rintro ⟨-, h⟩
      rw [utf8_prefix_iff, List.prefix_iff_eq_take]
      exact (utf8_injective h).symm
    · intro h
      refine ⟨List.le_of_prefix h, ?_⟩
      rw [utf8_prefix_iff, List.prefix_iff_eq_take] at h
      rw [← h]

/-- **The upper bound is exact**, and the query selects the keys with the prefix whether or not there is one. -/
theorem prefix_bound_exact {p : Bytes} (hp : Valid p) :
    (∀ u, prefixUpperBound p = some u → Valid u ∧ ∀ k, Valid k → (p <+: k ↔ p ≤ k ∧ k < u)) ∧
      (prefixUpperBound p = none → p ≠ [] → ∀ k, Valid k → p ≤ k → p <+: k) ∧
      ∀ k, Valid k → (caseSensitivePrefix p k = true ↔ p <+: k) := by
  refine ⟨fun u hu => ⟨?_, fun k hk => prefix_iff_between hp hk hu⟩, fun hu _ k hk hle => ?_, fun k hk => ?_⟩
  · obtain ⟨us, -, rfl⟩ := Option.map_eq_some_iff.mp hu
    exact ⟨us, rfl⟩
  · exact prefix_of_prefixUpperBound_none hp hk hle hu
  · exact caseSensitivePrefix_iff hp hk

/-- The bound of a text before the surrogates, with a last character that cannot be raised. -/
theorem prefix_bound_exact_surrogates :
    prefixUpperBound (utf8 [Char.ofNat 0xD7FF, maxRune]) = some (utf8 [Char.ofNat 0xE000]) ∧
      ∀ k, Valid k → (utf8 [Char.ofNat 0xD7FF, maxRune] <+: k ↔
        utf8 [Char.ofNat 0xD7FF, maxRune] ≤ k ∧ k < utf8 [Char.ofNat 0xE000]) := by
  have hu : prefixUpperBound (utf8 [Char.ofNat 0xD7FF, maxRune]) = some (utf8 [Char.ofNat 0xE000]) := by
    rw [prefixUpperBound_utf8]
    decide +kernel
  exact ⟨hu, ((prefix_bound_exact ⟨_, rfl⟩).1 _ hu).2⟩

section Common

variable {keyPrefix delimiter key c : Bytes}

theorem trimPrefix_append (keyPrefix rest : Bytes) : trimPrefix (keyPrefix ++ rest) keyPrefix = rest := by
  unfold trimPrefix
  rw [if_pos (List.prefix_append _ _), List.drop_left]

theorem listingCommonPrefix_eq_some (hkey : keyPrefix <+: key) :
    listingCommonPrefix key keyPrefix delimiter = some c ↔ IsCommonPrefix keyPrefix delimiter key c := by
  obtain ⟨rest, rfl⟩ := hkey
  unfold listingCommonPrefix IsCommonPrefix
  rw [trimPrefix_append]
  have hassoc : ∀ u v : Bytes, keyPrefix ++ rest = keyPrefix ++ u ++ delimiter ++ v ↔ rest = u ++ delimiter ++ v := by
    intro u v
    rw [List.append_assoc, List.append_assoc, List.append_cancel_left_eq, ← List.append_assoc]
  simp only [hassoc]
  constructor
  · intro h
    split at h
    · cases h
    · next hne =>
      obtain ⟨⟨before, after⟩, hcut, rfl⟩ := Option.map_eq_some_iff.mp h
      obtain ⟨hrest, hfirst⟩ := cut_eq_some hcut
      exact ⟨hne, before, after, hrest, rfl, hfirst⟩
  · rintro ⟨hne, before, after, hrest, rfl, hfirst⟩
    rw [if_neg hne]
    obtain ⟨⟨b, a⟩, hcut⟩ := Option.isSome_iff_exists.mp (cut_isSome hrest)
    obtain ⟨hrest', hfirst'⟩ := cut_eq_some hcut
    -- both are the first delimiter
    have hlen : b.length = before.length :=
      Nat.le_antisymm (hfirst' before after hrest) (hfirst b a hrest')
    rw [hrest', List.append_assoc, List.append_assoc] at hrest
    rw [hcut, (List.append_inj hrest hlen).1]
    rfl

theorem listingCommonPrefix_eq_none (hkey : keyPrefix <+: key) :
    listingCommonPrefix key keyPrefix delimiter = none ↔
      delimiter = [] ∨ ∀ u v, key ≠ keyPrefix ++ u ++ delimiter ++ v := by
  obtain ⟨rest, rfl⟩ := hkey
  unfold listingCommonPrefix
  rw [trimPrefix_append]
  constructor
  · intro h
    split at h
    · next hnil => exact .inl hnil
    refine .inr fun u v huv => ?_
    have hrest : rest = u ++ delimiter ++ v := by
      rw [List.append_assoc, List.append_assoc] at huv
      rw [List.append_assoc]
      exact List.append_cancel_left huv
    have hsome := cut_isSome hrest
    rw [Option.map_eq_none_iff.mp h] at hsome
    cases hsome
  · rintro (hnil | hno)
    · exact if_pos hnil
    split
    · rfl
    rw [Option.map_eq_none_iff]
    cases hcut : cut delimiter rest with
    | none => rfl
    | some p =>
      obtain ⟨hrest, -⟩ := cut_eq_some hcut
      refine absurd ?_ (hno p.1 p.2)
      rw [hrest, List.append_assoc, List.append_assoc, List.append_assoc]

theorem prefix_of_listingCommonPrefix (hkey : keyPrefix <+: key)
    (h : listingCommonPrefix key keyPrefix delimiter = some c) : c <+: key := by
  obtain ⟨-, before, after, rfl, rfl, -⟩ := (listingCommonPrefix_eq_some hkey).mp h
  exact List.prefix_append _ _

/-- **Every key that begins with a common prefix has it.** -/
theorem listingCommonPrefix_congr {key' : Bytes} (hkey : keyPrefix <+: key)
    (h : listingCommonPrefix key keyPrefix delimiter = some c) (hkey' : c <+: key') :
    listingCommonPrefix key' keyPrefix delimiter = some c := by
  obtain ⟨rest, rfl⟩ := hkey
  obtain ⟨rest', rfl⟩ := hkey'
  unfold listingCommonPrefix at h ⊢
  rw [trimPrefix_append] at h
  split at h
  · cases h
  next hne =>
  obtain ⟨⟨before, after⟩, hcut, rfl⟩ := Option.map_eq_some_iff.mp h
  rw [if_neg hne, List.append_assoc, List.append_assoc, trimPrefix_append, ← List.append_assoc,
    cut_congr hcut rest']
  rfl

/-- The delimiter cuts the key at the end of a character, if it cuts it at all: the common prefix is a text. -/
def CutsText (keyPrefix delimiter key : Bytes) : Prop := ∀ c, IsCommonPrefix keyPrefix delimiter key c → Valid c

/-- **A common prefix is a text.** The delimiter is found by its bytes, but its first byte begins a character. -/
theorem cutsText_of_valid (hp : Valid keyPrefix) (hd : Valid delimiter) (hk : Valid key) :
    CutsText keyPrefix delimiter key := by
  rintro c ⟨hne, before, after, hbytes, rfl, -⟩
  obtain ⟨ps, rfl⟩ := hp
  obtain ⟨ds, rfl⟩ := hd
  obtain ⟨ks, rfl⟩ := hk
  have hkey : utf8 ps <+: utf8 ks := ⟨before ++ (utf8 ds ++ after), by rw [hbytes]; simp only [List.append_assoc]⟩
  obtain ⟨ss, rfl⟩ := utf8_prefix_iff.mp hkey
  rw [utf8_append, List.append_assoc, List.append_assoc] at hbytes
  have hss : utf8 ss = before ++ (utf8 ds ++ after) := List.append_cancel_left hbytes
  obtain ⟨b, rest, hds, hb⟩ := exists_firstByte (mt utf8_eq_nil.mpr hne)
  have hdrop : (utf8 ss).drop before.length = b :: (rest ++ after) := by
    rw [hss, List.drop_left, hds]
    rfl
  obtain ⟨as, bs, -, htake, -⟩ := boundary_of_firstByte hdrop hb
  rw [hss, List.take_left] at htake
  exact ⟨ps ++ as ++ ds, by rw [htake, utf8_append, utf8_append]⟩

theorem listingCommonPrefix_ne_nil (hkey : keyPrefix <+: key)
    (h : listingCommonPrefix key keyPrefix delimiter = some c) : c ≠ [] := by
  obtain ⟨hne, before, after, -, rfl, -⟩ := (listingCommonPrefix_eq_some hkey).mp h
  intro hnil
  exact hne (List.append_eq_nil_iff.mp hnil).2

end Common

end SynapS3.Listing
