import Mathlib.Data.List.DropRight
import SynapS3.Lib.Utf8

/-!
# `Object.ETagLists` — the entity tags of a read condition

`readETagMatches` of `internal/backend/conditions.go`. The gateway takes a pair of quotes off a header that begins and
ends with one, so a value is read as it is and, if that is no list of tags, again with the quotes put back. A list
whose quotes were taken off is never a list itself (`TagList.stripped`), so the second reading is the header.
-/

namespace SynapS3.Object

def quote : UInt8 := 34

def comma : UInt8 := 44

def star : Bytes := [42]

def blank (b : UInt8) : Bool := b == 32 || b == 9

def separator (b : UInt8) : Bool := blank b || b == comma

def weakMark : Bytes := [87, 47]

def trim (p : UInt8 → Bool) (s : Bytes) : Bytes := (s.dropWhile p).rdropWhile p

/-- An `entity-tag` of an `If-Match` list. -/
structure EntityTag where
  weak : Bool
  content : Bytes

def EntityTag.bytes (t : EntityTag) : Bytes :=
  (if t.weak then weakMark else []) ++ quote :: (t.content ++ [quote])

/-- The tag is the stored one. A weak tag counts only for the weak comparison. -/
def EntityTag.counts (etag : Bytes) (strong : Bool) (t : EntityTag) : Bool :=
  (!strong || !t.weak) && t.content == etag

def scanTag (value : Bytes) : Option (EntityTag × Bytes) :=
  let weak := weakMark.isPrefixOf value
  match if weak then value.drop 2 else value with
  | [] => none
  | first :: rest =>
    if rest = [] ∨ first ≠ quote ∨ !rest.contains quote then none
    else
      let content := rest.takeWhile (· != quote)
      if content.any fun b => b < 0x21 || b == 0x7f then none
      else some (⟨weak, content⟩, rest.drop (content.length + 1))

/-- The loop of `readETagListMatches`; none if it is not over after `fuel` turns. -/
def readElements (etag : Bytes) (strong : Bool) : Nat → Bool → Bytes → Option (Bool × Bool)
  | 0, _, _ => none
  | fuel + 1, found, value =>
    let value := value.dropWhile separator
    if value = [] then some (found, true)
    else
      match scanTag value with
      | none => some (false, false)
      | some (t, rest) =>
        let value := rest.dropWhile blank
        if value ≠ [] ∧ value.head? ≠ some comma then some (false, false)
        else readElements etag strong fuel (found || t.counts etag strong) value

/-- Whether a tag of the list is the stored one, and whether the value is a list. -/
def readETagListMatches (etag value : Bytes) (strong : Bool) : Option (Bool × Bool) :=
  let value := trim blank value
  if value = star then some (true, true) else readElements etag strong (value.length + 1) false value

def quoted (value : Bytes) : Bytes := quote :: (value ++ [quote])

/-- `readETagMatches`; no answer is an error. -/
def readETagMatches (etag value : Bytes) (strong : Bool) : Option Bool :=
  let etag := trim (· == quote) etag
  (readETagListMatches etag value strong).bind fun first =>
    if first.2 then some first.1
    else (readETagListMatches etag (quoted value) strong).map Prod.fst

/-- What the gateway passes on of a header. -/
def gatewayValue (header : Bytes) : Bytes :=
  match header with
  | first :: rest => if first = quote ∧ rest.getLast? = some quote then rest.dropLast else header
  | [] => []

/-! ## The lists -/

/-- RFC 9110: any bytes but controls, blanks and the quote. -/
def EntityTag.Valid (t : EntityTag) : Prop := ∀ b ∈ t.content, 0x21 ≤ b ∧ b ≠ 0x7f ∧ b ≠ quote

/-- A comma-separated list of entity tags, with blanks around them and empty elements. -/
inductive TagList : List EntityTag → Bytes → Prop
  | nil : TagList [] []
  | skip {b : UInt8} {s : Bytes} {ts : List EntityTag} : separator b = true → TagList ts s → TagList ts (b :: s)
  | last {t : EntityTag} {blanks : Bytes} : t.Valid → (∀ b ∈ blanks, blank b = true) →
      TagList [t] (t.bytes ++ blanks)
  | tag {t : EntityTag} {blanks s : Bytes} {ts : List EntityTag} : t.Valid → (∀ b ∈ blanks, blank b = true) →
      TagList ts s → TagList (t :: ts) (t.bytes ++ (blanks ++ comma :: s))

/-- A value that can be read: `*` or a list of tags, blanks at its ends apart. -/
def WellFormed (value : Bytes) : Prop := trim blank value = star ∨ ∃ ts, TagList ts (trim blank value)

variable {b : UInt8} {s r a rest blanks v etag : Bytes} {t : EntityTag} {ts : List EntityTag} {strong found : Bool}
  {fuel : Nat}

theorem separator_of_blank (h : blank b = true) : separator b = true := by
  simp [separator, h]

theorem EntityTag.bytes_eq (t : EntityTag) : ∃ b s, t.bytes = b :: s ∧ separator b = false := by
  cases h : t.weak with
  | true => exact ⟨87, _, by rw [bytes, h]; rfl, rfl⟩
  | false => exact ⟨quote, _, by rw [bytes, h]; rfl, rfl⟩

theorem EntityTag.length_bytes (t : EntityTag) : 2 ≤ t.bytes.length := by
  simp only [bytes, List.length_append, List.length_cons, List.length_nil]
  omega

/-- The first quote in a text that begins with a tag is the one that opens the tag. -/
theorem EntityTag.after_quote (h : t.bytes ++ s = a ++ quote :: r) (ha : quote ∉ a) :
    r = t.content ++ quote :: s := by
  have hopen : ∀ {a u : Bytes}, quote :: u = a ++ quote :: r → quote ∉ a → r = u := by
    intro a u h ha
    cases a with
    | nil => exact (List.cons.inj h).2.symm
    | cons x a => exact absurd (List.mem_cons.mpr (.inl (List.cons.inj h).1)) ha
  cases hw : t.weak with
  | false =>
    rw [bytes, hw] at h
    simpa using hopen h ha
  | true =>
    rw [bytes, hw] at h
    rcases a with _ | ⟨x, _ | ⟨y, a⟩⟩
    · cases h
    · cases h
    · have hrest := (List.cons.inj (List.cons.inj h).2).2
      simpa using hopen hrest fun hm => ha (List.mem_cons_of_mem _ (List.mem_cons_of_mem _ hm))

/-! ## One tag -/

theorem EntityTag.Valid.quote_not_mem (h : t.Valid) : quote ∉ t.content := fun hm => (h _ hm).2.2 rfl

theorem takeWhile_quote (h : quote ∉ a) : (a ++ quote :: s).takeWhile (· != quote) = a := by
  have hall : ∀ b ∈ a, (b != quote) = true := fun b hb => bne_iff_ne.mpr fun heq => h (heq ▸ hb)
  rw [List.takeWhile_append_of_pos hall, List.takeWhile_cons_of_neg (by simp), List.append_nil]

theorem scanTag_bytes (ht : t.Valid) : scanTag (t.bytes ++ s) = some (t, s) := by
  have htake := takeWhile_quote (s := s) ht.quote_not_mem
  have hbytes : (t.content.any fun b => b < 0x21 || b == 0x7f) = false := by
    simp only [List.any_eq_false, Bool.or_eq_true, decide_eq_true_eq, beq_iff_eq, not_or, not_lt]
    exact fun b hb => ⟨(ht b hb).1, (ht b hb).2.1⟩
  obtain ⟨weak, content⟩ := t
  cases weak <;> simp_all [scanTag, EntityTag.bytes, weakMark, quote, List.isPrefixOf]

theorem scanTag_some (h : scanTag s = some (t, rest)) : t.Valid ∧ s = t.bytes ++ rest := by
  simp only [scanTag] at h
  split at h
  · cases h
  next first tail hvalue =>
  split at h
  · cases h
  next hok =>
  simp only [not_or, not_not, Bool.not_eq_true', Bool.not_eq_false, List.contains_iff_mem] at hok
  obtain ⟨-, rfl, hclose⟩ := hok
  obtain ⟨c, u, rfl, hc⟩ := List.eq_append_cons_of_mem hclose
  rw [takeWhile_quote hc] at h
  split at h
  · cases h
  next hbytes =>
  cases h
  simp only [List.any_eq_true, Bool.or_eq_true, decide_eq_true_eq, beq_iff_eq, not_exists, not_and, not_or,
    not_lt] at hbytes
  refine ⟨fun b hb => ⟨(hbytes b hb).1, (hbytes b hb).2, fun heq => hc (heq ▸ hb)⟩, ?_⟩
  have hmark : s = (if weakMark.isPrefixOf s then weakMark else []) ++ quote :: (c ++ quote :: u) := by
    rw [← hvalue]
    split
    · next hpre =>
      obtain ⟨w, rfl⟩ := List.isPrefixOf_iff_prefix.mp hpre
      rfl
    · rfl
  conv_lhs => rw [hmark]
  simp [EntityTag.bytes]

/-! ## Whole lists -/

theorem TagList.skips (hr : ∀ b ∈ r, separator b = true) (h : TagList ts s) : TagList ts (r ++ s) := by
  induction r with
  | nil => exact h
  | cons b r ih => exact .skip (hr b List.mem_cons_self) (ih fun x hx => hr x (List.mem_cons_of_mem _ hx))

theorem TagList.of_dropWhile (h : TagList ts (s.dropWhile separator)) : TagList ts s := by
  rw [← List.takeWhile_append_dropWhile (p := separator) (l := s)]
  exact .skips (fun _ hb => List.mem_takeWhile_imp hb) h

theorem readElements_skip (hb : separator b = true) :
    readElements etag strong fuel found (b :: s) = readElements etag strong fuel found s := by
  cases fuel with
  | zero => rfl
  | succ fuel => simp only [readElements, List.dropWhile_cons_of_pos hb]

theorem readElements_tag (ht : t.Valid) : readElements etag strong (fuel + 1) found (t.bytes ++ s) =
    if s.dropWhile blank ≠ [] ∧ (s.dropWhile blank).head? ≠ some comma then some (false, false)
    else readElements etag strong fuel (found || t.counts etag strong) (s.dropWhile blank) := by
  obtain ⟨b, u, hb, hsep⟩ := t.bytes_eq
  have hdrop : (t.bytes ++ s).dropWhile separator = t.bytes ++ s := by
    rw [hb, List.cons_append, List.dropWhile_cons_of_neg (by simp [hsep])]
  rw [readElements, hdrop, scanTag_bytes ht, if_neg (by simp [hb])]

theorem TagList.read (h : TagList ts s) : ∀ {fuel found}, s.length < fuel →
    readElements etag strong fuel found s = some (found || ts.any (·.counts etag strong), true) := by
  induction h with
  | nil =>
    rintro (_ | fuel) found hf
    · cases hf
    · simp [readElements]
  | skip hb _ ih =>
    intro fuel found hf
    rw [readElements_skip hb]
    exact ih (Nat.lt_of_succ_lt hf)
  | @last t blanks ht hblanks =>
    intro fuel found hf
    have hlen := t.length_bytes
    rw [List.length_append] at hf
    obtain ⟨fuel, rfl⟩ : ∃ n, fuel = n + 2 := ⟨fuel - 2, by omega⟩
    rw [readElements_tag ht, List.dropWhile_eq_nil_iff.mpr hblanks]
    simp [readElements]
  | @tag t blanks s ts ht hblanks _ ih =>
    intro fuel found hf
    have hlen := t.length_bytes
    simp only [List.length_append, List.length_cons] at hf
    obtain ⟨fuel, rfl⟩ : ∃ n, fuel = n + 1 := ⟨fuel - 1, by omega⟩
    have hdrop : (blanks ++ comma :: s).dropWhile blank = comma :: s := by
      rw [List.dropWhile_append_of_pos hblanks]
      rfl
    rw [readElements_tag ht, hdrop, if_neg (by simp), readElements_skip rfl, ih (by omega), List.any_cons, Bool.or_assoc]

theorem readElements_cases : ∀ {fuel found s}, s.length < fuel →
    readElements etag strong fuel found s = some (false, false) ∨ ∃ ts, TagList ts s := by
  intro fuel
  induction fuel with
  | zero =>
    intro _ _ hf
    cases hf
  | succ fuel ih =>
    intro found s hf
    have hdrop : (s.dropWhile separator).length ≤ s.length := (List.dropWhile_suffix _).length_le
    by_cases hnil : s.dropWhile separator = []
    · exact .inr ⟨[], .of_dropWhile (hnil ▸ .nil)⟩
    cases hscan : scanTag (s.dropWhile separator) with
    | none => exact .inl (by simp [readElements, hnil, hscan])
    | some scanned =>
      obtain ⟨t, rest⟩ := scanned
      obtain ⟨ht, hs⟩ := scanTag_some hscan
      have hread : readElements etag strong (fuel + 1) found s =
          readElements etag strong (fuel + 1) found (t.bytes ++ rest) := by
        simp only [readElements, ← hs, List.dropWhile_idempotent]
      have hsplit := List.takeWhile_append_dropWhile (p := blank) (l := rest)
      have hblanks : ∀ b ∈ rest.takeWhile blank, blank b = true := fun b hb => List.mem_takeWhile_imp hb
      rw [hread, readElements_tag ht]
      cases htail : rest.dropWhile blank with
      | nil =>
        rw [htail, List.append_nil] at hsplit
        exact .inr ⟨[t], .of_dropWhile (hs ▸ .last ht (hsplit ▸ hblanks))⟩
      | cons x u =>
        by_cases hx : x = comma
        · subst hx
          have hlen : (comma :: u).length ≤ rest.length := htail ▸ (List.dropWhile_suffix _).length_le
          have hbytes := t.length_bytes
          rw [hs, List.length_append] at hdrop
          have hshort : u.length < fuel := by
            rw [List.length_cons] at hlen
            omega
          rw [if_neg (by simp), readElements_skip rfl]
          rcases ih hshort with hmal | ⟨ts, hts⟩
          · exact .inl hmal
          · refine .inr ⟨t :: ts, .of_dropWhile ?_⟩
            rw [hs, ← hsplit, htail]
            exact .tag ht hblanks hts
        · exact .inl (by simp [hx])

/-! ## Blanks at the ends -/

theorem rdropWhile_cons {p : UInt8 → Bool} :
    (b :: s).rdropWhile p = if s.rdropWhile p = [] ∧ p b then [] else b :: s.rdropWhile p := by
  rw [List.rdropWhile, List.reverse_cons, List.dropWhile_append, List.rdropWhile]
  cases hs : s.reverse.dropWhile p with
  | nil => cases hb : p b <;> simp [hb]
  | cons x u => simp

theorem rdropWhile_append {p : UInt8 → Bool} (ha : a.rdropWhile p = a) :
    (a ++ s).rdropWhile p = a ++ s.rdropWhile p := by
  have hrev : a.reverse.dropWhile p = a.reverse := by rw [← List.reverse_eq_iff, ← List.rdropWhile, ha]
  rw [List.rdropWhile, List.reverse_append, List.dropWhile_append, hrev, List.rdropWhile]
  split
  · next h => simp [List.isEmpty_iff.mp h]
  · simp

theorem exists_blanks (s : Bytes) : ∃ r, s = s.rdropWhile blank ++ r ∧ ∀ b ∈ r, blank b = true := by
  refine ⟨s.rtakeWhile blank, ?_, fun _ hb => List.mem_rtakeWhile_imp hb⟩
  rw [List.rdropWhile, List.rtakeWhile, ← List.reverse_append, List.takeWhile_append_dropWhile, List.reverse_reverse]

/-! ## Both readings -/

theorem TagList.ne_star (h : TagList ts s) : s ≠ star := by
  intro hs
  have hlen := congrArg List.length hs
  cases h with
  | nil => cases hs
  | skip hb _ =>
    cases hs
    cases hb
  | @last t | @tag t =>
    have hbytes := t.length_bytes
    simp only [List.length_append, star, List.length_cons, List.length_nil] at hlen
    omega

theorem readETagListMatches_list (h : TagList ts (trim blank s)) :
    readETagListMatches etag s strong = some (ts.any (·.counts etag strong), true) := by
  rw [readETagListMatches, if_neg h.ne_star, h.read (Nat.lt_succ_self _), Bool.false_or]

theorem readETagListMatches_answer (etag s : Bytes) (strong : Bool) :
    ∃ answer, readETagListMatches etag s strong = some answer ∧ (answer = (false, false) ∨ WellFormed s) := by
  unfold readETagListMatches
  dsimp only
  split
  · next h => exact ⟨_, rfl, .inr (.inl h)⟩
  · rcases readElements_cases (Nat.lt_succ_self _) with h | ⟨ts, hts⟩
    · exact ⟨_, h, .inl rfl⟩
    · exact ⟨_, hts.read (Nat.lt_succ_self _), .inr (.inr ⟨ts, hts⟩)⟩

/-- The tag is one or more bytes and has no comma. -/
def EntityTag.Narrow (t : EntityTag) : Prop := t.content ≠ [] ∧ comma ∉ t.content

theorem EntityTag.Valid.not_blank (h : t.Valid) (hb : b ∈ t.content) : blank b = false := by
  have hlow := (h b hb).1
  simp only [blank, Bool.or_eq_false_iff, beq_eq_false_iff_ne]
  constructor <;> rintro rfl <;> exact absurd hlow (by decide)

theorem EntityTag.Narrow.content_eq (h : t.Narrow) (ht : t.Valid) :
    ∃ b u, t.content = b :: u ∧ separator b = false ∧ b ≠ quote := by
  obtain ⟨b, u, hc⟩ := List.exists_cons_of_ne_nil h.1
  have hb : b ∈ t.content := hc ▸ List.mem_cons_self
  have hcomma : b ≠ comma := fun heq => h.2 (heq ▸ hb)
  exact ⟨b, u, hc, by simp [separator, ht.not_blank hb, hcomma], (ht b hb).2.2⟩

/-- After the first quote of a list stands a tag of it, then a separator or nothing, and again a list. -/
theorem TagList.after_quote (h : TagList ts s) (hs : s = a ++ quote :: r) (ha : quote ∉ a) :
    ∃ t us rest, t.Valid ∧ (t :: us) ⊆ ts ∧ r = t.content ++ quote :: rest ∧
      (∀ b u, rest = b :: u → separator b = true) ∧ TagList us rest := by
  induction h generalizing a with
  | nil => simp at hs
  | skip hb _ ih =>
    cases a with
    | nil =>
      cases hs
      cases hb
    | cons x a => exact ih (List.cons.inj hs).2 fun hm => ha (List.mem_cons_of_mem _ hm)
  | @last t blanks ht hblanks =>
    have hsep : ∀ b ∈ blanks, separator b = true := fun b hb => separator_of_blank (hblanks b hb)
    have hnil : TagList [] (blanks ++ []) := .skips hsep .nil
    refine ⟨t, [], _, ht, List.Subset.refl _, EntityTag.after_quote (by simpa using hs) ha, ?_, hnil⟩
    rw [List.append_nil]
    rintro b u rfl
    exact hsep b List.mem_cons_self
  | @tag t blanks s ts ht hblanks h =>
    have hsep : ∀ b ∈ blanks, separator b = true := fun b hb => separator_of_blank (hblanks b hb)
    refine ⟨t, ts, _, ht, List.Subset.refl _, EntityTag.after_quote hs ha, ?_, .skips hsep (.skip rfl h)⟩
    intro b u hrest
    cases blanks with
    | nil => exact (List.cons.inj hrest).1 ▸ rfl
    | cons x blanks => exact (List.cons.inj hrest).1 ▸ hsep x List.mem_cons_self

/-- **A list whose quotes were taken off is no list**, unless it was `"*"`. -/
theorem TagList.stripped (h : TagList ts (quoted v)) (hts : ∀ t ∈ ts, t.Narrow) (hv : v ≠ star) : ¬WellFormed v := by
  obtain ⟨t, us, rest, ht, hsub, hcontent, -, hus⟩ := h.after_quote (a := []) rfl (by simp)
  rw [List.cons_subset] at hsub
  obtain ⟨b, u, hbu, hb, -⟩ := (hts t hsub.1).content_eq ht
  obtain ⟨w, rfl, hw⟩ : ∃ w, v = t.content ++ w ∧ quote :: rest = w ++ [quote] := by
    rcases List.append_eq_append_iff.mp hcontent with ⟨w, hc, hq⟩ | ⟨w, hc, hq⟩
    · cases w with
      | nil => exact ⟨[], by simpa using hc.symm, by simpa using hq.symm⟩
      | cons x w => simp at hq
    · exact ⟨w, hc, hq⟩
  have htrim : trim blank (t.content ++ w) = t.content ++ w.rdropWhile blank := by
    have hblank : blank b = false := (Bool.or_eq_false_iff.mp hb).1
    rw [trim, hbu, List.cons_append, List.dropWhile_cons_of_neg (by simp [hblank]), ← List.cons_append, ← hbu]
    refine rdropWhile_append (List.rdropWhile_eq_self_iff.mpr fun hl hx => ?_)
    simp [ht.not_blank (List.getLast_mem hl)] at hx
  unfold WellFormed
  rw [htrim]
  cases w with
  | nil =>
    -- one tag: without its quotes, no quote is left
    simp only [List.rdropWhile_nil, List.append_nil] at hv ⊢
    rintro (hstar | ⟨ts', hlist⟩)
    · exact hv hstar
    · generalize hs : t.content = s at hlist
      cases hlist with
      | nil => simp [hbu] at hs
      | skip hsep _ =>
        rw [← (List.cons.inj (hbu.symm.trans hs)).1, hb] at hsep
        cases hsep
      | last | tag => exact ht.quote_not_mem (by simp [hs, EntityTag.bytes])
  | cons x z =>
    obtain ⟨rfl, hrest⟩ := List.cons.inj hw
    rw [rdropWhile_cons, if_neg (by simp [show blank quote = false from rfl])]
    rintro (hstar | ⟨ts', hlist⟩)
    · simp [hbu, star] at hstar
    · -- the first tag is `W/`, and what is taken for the end of a tag is followed by a byte of the second one
      obtain ⟨t', us', rest', ht', -, hz, hsep, -⟩ := hlist.after_quote rfl ht.quote_not_mem
      obtain ⟨r, hr, hblanks⟩ := exists_blanks z
      obtain ⟨t₂, us₂, rest₂, ht₂, hsub₂, hnext, -⟩ := hus.after_quote (r := rest' ++ (r ++ [quote]))
        (by rw [hrest, hr, hz]; simp) ht'.quote_not_mem
      obtain ⟨c, u₂, hc, hcsep, hquote⟩ := (hts t₂ (hsub.2 (hsub₂ List.mem_cons_self))).content_eq ht₂
      rw [hc] at hnext
      rcases rest' with _ | ⟨y, rest'⟩
      · rcases r with _ | ⟨y, r⟩
        · exact hquote (List.cons.inj hnext).1.symm
        · simp [← (List.cons.inj hnext).1, separator_of_blank (hblanks y List.mem_cons_self)] at hcsep
      · simp [← (List.cons.inj hnext).1, hsep y rest' rfl] at hcsep

theorem trim_quoted (v : Bytes) : trim blank (quoted v) = quoted v :=
  List.rdropWhile_concat_neg blank (quote :: v) quote Bool.false_ne_true

theorem gatewayValue_cases (header : Bytes) :
    gatewayValue header = header ∨ header = quoted (gatewayValue header) := by
  cases header with
  | nil => exact .inl rfl
  | cons first rest =>
    unfold gatewayValue
    dsimp only
    split
    · next h =>
      obtain ⟨rfl, hlast⟩ := h
      exact .inr (by rw [quoted, List.dropLast_append_getLast? quote hlast])
    · exact .inl rfl

/-- A condition on a list of tags holds exactly if the stored tag is in the list, whether or not the gateway took the
    outer quotes off. -/
theorem etag_list_membership (etag : Bytes) (strong : Bool) :
    (∀ ts header, TagList ts (trim blank header) → (∀ t ∈ ts, t.Narrow) → header ≠ quoted star →
      (readETagMatches etag (gatewayValue header) strong = some true ↔
        ∃ t ∈ ts, t.content = trim (· == quote) etag ∧ (t.weak = true → strong = false))) ∧
    ∀ value, ∃ answer, readETagMatches etag value strong = some answer ∧
      (answer = true → WellFormed value ∨ WellFormed (quoted value)) := by
  refine ⟨fun ts header h hts hstar => ?_, fun value => ?_⟩
  · have hread : readETagMatches etag (gatewayValue header) strong =
        some (ts.any (·.counts (trim (· == quote) etag) strong)) := by
      rcases gatewayValue_cases header with hg | hg
      · simp [readETagMatches, hg, readETagListMatches_list h]
      rw [hg] at h hstar
      have hne : gatewayValue header ≠ star := fun heq => hstar (by rw [heq])
      obtain ⟨first, hfirst, hmal⟩ :=
        readETagListMatches_answer (trim (· == quote) etag) (gatewayValue header) strong
      cases hmal.resolve_right ((trim_quoted _ ▸ h).stripped hts hne)
      simp [readETagMatches, hfirst, readETagListMatches_list h]
    rw [hread, Option.some.injEq, List.any_eq_true]
    refine exists_congr fun t => and_congr_right fun _ => ?_
    cases strong <;> cases hw : t.weak <;> simp [EntityTag.counts, hw]
  · obtain ⟨first, hfirst, hmal⟩ := readETagListMatches_answer (trim (· == quote) etag) value strong
    obtain ⟨second, hsecond, hmal'⟩ := readETagListMatches_answer (trim (· == quote) etag) (quoted value) strong
    have hmatch : ∀ {answer : Bool × Bool} {s}, (answer = (false, false) ∨ WellFormed s) → answer.1 = true →
        WellFormed s := fun h ht => h.resolve_left fun heq => by simp [heq] at ht
    cases hvalid : first.2 with
    | true => exact ⟨first.1, by simp [readETagMatches, hfirst, hvalid], fun h => .inl (hmatch hmal h)⟩
    | false => exact ⟨second.1, by simp [readETagMatches, hfirst, hsecond, hvalid], fun h => .inr (hmatch hmal' h)⟩

/-- The list `"W/","b"`, of which the gateway leaves `W/","b`. -/
theorem etag_list_membership_stripped : gatewayValue [34, 87, 47, 34, 44, 34, 98, 34] = [87, 47, 34, 44, 34, 98] ∧
      readETagMatches [98] [87, 47, 34, 44, 34, 98] true = some true := by
  have hlist : TagList [⟨false, weakMark⟩, ⟨false, [98]⟩] [34, 87, 47, 34, 44, 34, 98, 34] :=
    @TagList.tag ⟨false, weakMark⟩ [] _ _ (by simp [EntityTag.Valid, weakMark, quote]) (by simp)
      (@TagList.last ⟨false, [98]⟩ [] (by simp [EntityTag.Valid, quote]) (by simp))
  have hiff := (etag_list_membership [98] true).1 _ [34, 87, 47, 34, 44, 34, 98, 34] hlist
    (by simp [EntityTag.Narrow, weakMark, comma]) (by decide)
  exact ⟨rfl, hiff.mpr ⟨⟨false, [98]⟩, by simp, rfl, nofun⟩⟩

end SynapS3.Object
