import SynapS3.Lib.Utf8

/-!
# `Lib.Path` — lexical paths

Paths of a POSIX system as byte strings, cleaned without looking at the disk. A clean absolute path is `rooted cs` for
its components `cs`, which are `Plain`; `names` gives the components back (`names_rooted`), and splits with the path
(`names_append`).
-/

namespace Path

def sep : UInt8 := 47

def dot : Bytes := [46]

def dotdot : Bytes := [46, 46]

/-- A path element that names something below its directory. -/
structure Plain (c : Bytes) : Prop where
  ne_nil : c ≠ []
  ne_dot : c ≠ dot
  ne_dotdot : c ≠ dotdot
  single : sep ∉ c

def isAbs (p : Bytes) : Bool := p.head? == some sep

/-- The next component of a path that is cleaned; `out` has the last one first. -/
def step (rooted : Bool) (out : List Bytes) (c : Bytes) : List Bytes :=
  if c = [] ∨ c = dot then out
  else if c = dotdot then
    match out with
    | [] => if rooted then [] else [dotdot]
    | top :: rest => if top = dotdot then dotdot :: out else rest
  else c :: out

def rooted (cs : List Bytes) : Bytes := sep :: [sep].intercalate cs

/-- The shortest path that means the same, lexically. -/
def clean (p : Bytes) : Bytes :=
  let out := ((p.splitOn sep).foldl (step (isAbs p)) []).reverse
  if isAbs p then rooted out else if out = [] then dot else [sep].intercalate out

def join (elems : List Bytes) : Bytes :=
  match elems.dropWhile (· = []) with
  | [] => []
  | es => clean ([sep].intercalate es)

/-- The absolute path; a relative one is taken from the working directory, if that is known. -/
def abs (cwd : Option Bytes) (p : Bytes) : Option Bytes :=
  if isAbs p then some (clean p) else cwd.map fun dir => join [dir, p]

def Within (p q : Bytes) : Prop :=
  ∃ cs rest, (∀ c ∈ cs ++ rest, Plain c) ∧ p = rooted cs ∧ q = rooted (cs ++ rest)

variable {p q c : Bytes} {cs bs out : List Bytes}

/-! ## Components -/

def names (p : Bytes) : List Bytes := (p.splitOn sep).filter (· ≠ [])

theorem names_append (p q : Bytes) : names (p ++ sep :: q) = names p ++ names q := by
  unfold names
  rw [List.splitOn_append_cons_self, List.filter_append]

theorem names_of_plain (h : Plain c) : names c = [c] := by
  simp [names, List.splitOn_eq_singleton h.single, h.ne_nil]

theorem names_rooted (h : ∀ c ∈ cs, Plain c) : names (rooted cs) = cs := by
  have hroot : names (rooted cs) = names ([sep].intercalate cs) := names_append [] _
  rw [hroot]
  cases cs with
  | nil => rfl
  | cons c cs =>
    rw [names, List.splitOn_intercalate _ (fun l hl => (h l hl).single) (List.cons_ne_nil _ _), List.filter_eq_self]
    intro l hl
    simpa using (h l hl).ne_nil

/-- A path that has another and a separator before it lies below that. -/
theorem exists_of_prefix (hb : ∀ b ∈ bs, Plain b) (hc : ∀ c ∈ cs, Plain c) (h : rooted bs ++ [sep] <+: rooted cs) :
    ∃ rest, cs = bs ++ rest := by
  obtain ⟨t, ht⟩ := h
  rw [List.append_assoc] at ht
  have hnames := names_append (rooted bs) t
  rw [show rooted bs ++ sep :: t = rooted cs from ht, names_rooted hb, names_rooted hc] at hnames
  exact ⟨names t, hnames⟩

/-! ## Cleaning -/

theorem sep_not_mem (h : c ∈ p.splitOn sep) : sep ∉ c := by
  induction p generalizing c with
  | nil =>
    rw [List.splitOn_nil, List.mem_singleton] at h
    simp [h]
  | cons b p ih =>
    rw [List.splitOn_cons_eq_if_modifyHead] at h
    split at h
    · rcases List.mem_cons.mp h with rfl | h
      · simp
      · exact ih h
    next hb =>
    obtain ⟨w, ws, hw⟩ := List.exists_cons_of_ne_nil (List.splitOn_ne_nil sep p)
    rw [hw, List.modifyHead_cons, List.mem_cons] at h
    rcases h with rfl | h
    · have hsep : sep ≠ b := fun heq => hb (by simp [heq])
      simpa [hsep] using ih (hw ▸ List.mem_cons_self)
    · exact ih (hw ▸ List.mem_cons_of_mem _ h)

theorem step_plain (hc : sep ∉ c) (h : ∀ d ∈ out, Plain d) : ∀ d ∈ step true out c, Plain d := by
  unfold step
  split
  · exact h
  next hskip =>
  rw [not_or] at hskip
  split
  · cases out with
    | nil => simp
    | cons top rest =>
      have htop : top ≠ dotdot := (h top List.mem_cons_self).ne_dotdot
      simp only [htop, if_false]
      exact fun d hd => h d (List.mem_cons_of_mem _ hd)
  · next hup =>
    intro d hd
    rcases List.mem_cons.mp hd with rfl | hd
    · exact ⟨hskip.1, hskip.2, hup, hc⟩
    · exact h d hd

/-- **Cleaning an absolute path leaves plain components only.** -/
theorem clean_plain (h : isAbs p = true) : ∃ cs, (∀ c ∈ cs, Plain c) ∧ clean p = rooted cs := by
  have hfold : ∀ es out : List Bytes, (∀ e ∈ es, sep ∉ e) → (∀ d ∈ out, Plain d) →
      ∀ d ∈ es.foldl (step true) out, Plain d := by
    intro es
    induction es with
    | nil => exact fun _ _ hout => hout
    | cons e es ih =>
      intro out hes hout
      exact ih _ (fun e he => hes e (List.mem_cons_of_mem _ he)) (step_plain (hes e List.mem_cons_self) hout)
  refine ⟨((p.splitOn sep).foldl (step true) []).reverse, fun c hc => ?_, by simp [clean, h]⟩
  exact hfold _ [] (fun e he => sep_not_mem he) (by simp) c (List.mem_reverse.mp hc)

theorem foldl_step (h : ∀ c ∈ cs.filter (· ≠ []), Plain c) (out : List Bytes) :
    cs.foldl (step true) out = (cs.filter (· ≠ [])).reverse ++ out := by
  induction cs generalizing out with
  | nil => rfl
  | cons c cs ih =>
    by_cases hc : c = []
    · simpa [step, hc] using ih (by simpa [hc] using h) out
    have hkeep : (c :: cs).filter (· ≠ []) = c :: cs.filter (· ≠ []) := by simp [hc]
    rw [hkeep] at h
    have hp := h c List.mem_cons_self
    have hstep : step true out c = c :: out := by simp [step, hc, hp.ne_dot, hp.ne_dotdot]
    rw [List.foldl_cons, hstep, ih fun d hd => h d (List.mem_cons_of_mem _ hd), hkeep]
    simp

theorem clean_of_names (h : isAbs p = true) (hp : ∀ c ∈ names p, Plain c) : clean p = rooted (names p) := by
  unfold clean
  rw [h, foldl_step hp]
  simp [names]

theorem clean_rooted (h : ∀ c ∈ cs, Plain c) : clean (rooted cs) = rooted cs := by
  have hnames := names_rooted h
  rw [clean_of_names rfl (by rw [hnames]; exact h), hnames]

theorem abs_rooted (cwd : Option Bytes) (h : ∀ c ∈ cs, Plain c) : abs cwd (rooted cs) = some (rooted cs) := by
  rw [abs, if_pos (show isAbs (rooted cs) = true from rfl), clean_rooted h]

theorem join_cons (h : isAbs p = true) (ps : List Bytes) :
    join (p :: ps) = clean ([sep].intercalate (p :: ps)) ∧ isAbs ([sep].intercalate (p :: ps)) = true := by
  cases p with
  | nil => cases h
  | cons b p =>
    refine ⟨by simp [join], ?_⟩
    rw [List.intercalate_cons_cons_left]
    exact h

theorem join_plain (h : ∀ b ∈ bs, Plain b) (hc : Plain c) : join [rooted bs, c] = rooted (bs ++ [c]) := by
  have hnames : names (rooted bs ++ sep :: c) = bs ++ [c] := by rw [names_append, names_rooted h, names_of_plain hc]
  have hplain : ∀ d ∈ bs ++ [c], Plain d := by
    intro d hd
    rcases List.mem_append.mp hd with hd | hd
    · exact h d hd
    · rw [List.mem_singleton.mp hd]
      exact hc
  rw [(join_cons (p := rooted bs) rfl _).1, List.intercalate_cons_cons, List.intercalate_singleton, List.append_assoc,
    ← hnames]
  exact clean_of_names rfl (by rw [← hnames] at hplain; exact hplain)

theorem abs_join (cwd : Option Bytes) (h : isAbs p = true) (ps : List Bytes) :
    ∃ cs, (∀ c ∈ cs, Plain c) ∧ join (p :: ps) = rooted cs ∧ abs cwd (join (p :: ps)) = some (rooted cs) := by
  obtain ⟨hjoin, habs⟩ := join_cons h ps
  obtain ⟨cs, hcs, hclean⟩ := clean_plain habs
  have hrooted : join (p :: ps) = rooted cs := hjoin.trans hclean
  refine ⟨cs, hcs, hrooted, ?_⟩
  rw [hrooted, abs_rooted cwd hcs]

/-- Components tell paths apart: of two paths below different entries of a directory none is within the other. -/
theorem not_within {as : List Bytes} {d : Bytes} (hc : ∀ e ∈ bs ++ c :: cs, Plain e) (hd : ∀ e ∈ bs ++ d :: as, Plain e)
    (hne : c ≠ d) : ¬Within (rooted (bs ++ c :: cs)) (rooted (bs ++ d :: as)) := by
  rintro ⟨us, vs, huv, hu, hv⟩
  have hus : bs ++ c :: cs = us := by
    rw [← names_rooted hc, hu, names_rooted fun e he => huv e (List.mem_append_left _ he)]
  have heq : bs ++ d :: as = us ++ vs := by rw [← names_rooted hd, hv, names_rooted huv]
  rw [← hus, List.append_assoc, List.append_cancel_left_eq] at heq
  exact hne (List.cons.inj heq).1.symm

end Path
