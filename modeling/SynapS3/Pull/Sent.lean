import SynapS3.Pull.Laws

/-!
# `Pull.Sent` — what is reserved before a pull is sent

The checkpoint of a pull names an attempt that its task has reserved, or that the task it retries had. An
execution that finds its attempt accepted sends the request again without another reservation, so a request that
is sent was reserved by its task or by one that this task retries, directly or not.
-/

namespace SynapS3.Pull
open Pipeline (CopyStatus TransferMethod)

variable {s s' : State}

def State.Retries (s : State) (t old : Nat) : Prop := ∃ row, s.tasks.row t = some row ∧ row.retryOf = some old

/-- The attempt was reserved with that request by the task, or by one that it retries. -/
def State.Reserved (s : State) (log : List Event) (task attempt : Nat) (request : Request) : Prop :=
  ∃ t, Relation.ReflTransGen s.Retries task t ∧ .reserved t attempt request ∈ log

/-- What nothing takes back. -/
structure Grows (s s' : State) : Prop where
  retries : ∀ t old, s.Retries t old → s'.Retries t old
  log : ∀ e ∈ s.log, e ∈ s'.log

variable {t old id : Nat} {a : Attempt} {k : Checkpoint}

theorem TaskLaw.retries (h : TaskLaw s s') (hr : s.Retries t old) : s'.Retries t old := by
  obtain ⟨row, hrow, hold⟩ := hr
  obtain ⟨row', hrow', he⟩ := h.old t row hrow
  exact ⟨row', hrow', he.trans hold⟩

variable {task attempt : Nat} {request : Request}

theorem State.Reserved.mono (hg : ∀ t old, s.Retries t old → s'.Retries t old) {log log' : List Event}
    (hlog : ∀ e ∈ log, e ∈ log') (h : s.Reserved log task attempt request) :
    s'.Reserved log' task attempt request := by
  obtain ⟨t, hrt, hmem⟩ := h
  exact ⟨t, Relation.ReflTransGen.mono hg _ _ hrt, hlog _ hmem⟩

def State.Known (s : State) (a : Attempt) : Prop := ∃ b ∈ s.attempts, a.Later b

def RunOk (s : State) (r : Run) : Prop :=
  match r.phase with
  | .authorized => ∀ k, r.checkpoint = some k → ∃ request, s.Reserved s.log r.task k.attempt request
  | .found a => s.Known a
  | .loaded none => True
  | .loaded (some a) =>
    s.Known a ∧ ∀ k, r.checkpoint = some k → k.attempt = a.id ∧ ∃ request, s.Reserved s.log r.task a.id request
  | .prepared _ => True
  | .sendable a | .sent a => s.Reserved s.log r.task a.id a.request

def SentReserved (s : State) : Prop :=
  ∀ before task attempt request after, s.log = before ++ .sent task attempt request :: after →
    s.Reserved before task attempt request

/-- Every pull that was sent or may be sent is of a reserved attempt, with the request reserved for it. -/
structure Honored (s : State) : Prop where
  wf : s.attempts.Wf
  rows : ∀ t attempt request, .reserved t attempt request ∈ s.log → ∃ a ∈ s.attempts, a.id = attempt ∧ a.request = request
  tasks : ∀ t row k, s.tasks.row t = some row → row.checkpoint = some k → ∃ request, s.Reserved s.log t k.attempt request
  runs : ∀ i r, s.runs.row i = some r → RunOk s r
  sent : SentReserved s

theorem Honored.init : Honored {} := by
  refine ⟨.nil, nofun, nofun, nofun, ?_⟩
  intro before task attempt request after h
  cases before <;> cases h

/-! ## Preservation -/

theorem State.Known.mono (h : s.attempts.Later s'.attempts) (hk : s.Known a) : s'.Known a := by
  obtain ⟨b, hb, hab⟩ := hk
  obtain ⟨c, hc, hbc⟩ := h b hb
  exact ⟨c, hc, hab.trans hbc⟩

theorem RunOk.mono (hg : Grows s s') (hl : s.attempts.Later s'.attempts) {r : Run} (h : RunOk s r) : RunOk s' r := by
  obtain ⟨task, content, dataSet, mayPull, checkpoint, phase⟩ := r
  cases phase with
  | authorized =>
    intro k hk
    obtain ⟨request, hr⟩ := h k hk
    exact ⟨request, hr.mono hg.retries hg.log⟩
  | found a => exact State.Known.mono hl h
  | prepared a => trivial
  | sendable a | sent a => exact State.Reserved.mono hg.retries hg.log h
  | loaded a =>
    cases a with
    | none => trivial
    | some a =>
      refine ⟨h.1.mono hl, fun k hk => ?_⟩
      obtain ⟨hid, request, hr⟩ := h.2 k hk
      exact ⟨hid, request, hr.mono hg.retries hg.log⟩

theorem SentReserved.append (h : SentReserved s) (hg : ∀ t old, s.Retries t old → s'.Retries t old) {e : Event}
    (hlog : s'.log = s.log ++ [e])
    (he : ∀ task attempt request, e = .sent task attempt request → s.Reserved s.log task attempt request) :
    SentReserved s' := by
  intro before task attempt request after hsplit
  rw [hlog] at hsplit
  rcases List.eq_nil_or_concat after with rfl | ⟨after', e', rfl⟩
  · -- the last entry
    obtain ⟨rfl, hlast⟩ := List.append_inj' hsplit rfl
    exact (he _ _ _ (List.singleton_inj.mp hlast)).mono hg fun _ hmem => hmem
  · have hsplit' : s.log ++ [e] = (before ++ .sent task attempt request :: after') ++ [e'] := by
      simpa using hsplit
    obtain ⟨hl, -⟩ := List.append_inj' hsplit' rfl
    exact (h _ _ _ _ _ hl).mono hg fun _ hmem => hmem

theorem SentReserved.of_log (h : SentReserved s) (hg : ∀ t old, s.Retries t old → s'.Retries t old)
    (hlog : s'.log = s.log) : SentReserved s' := by
  intro before task attempt request after hsplit
  rw [hlog] at hsplit
  exact (h _ _ _ _ _ hsplit).mono hg fun _ hmem => hmem

theorem Honored.quiet (h : Honored s) (hq : Quiet s s') : Honored s' := by
  have hret : ∀ t old, s.Retries t old → s'.Retries t old := fun t old => hq.tasks.retries
  have hlog : ∀ e ∈ s.log, e ∈ s'.log := fun e he => by rw [hq.log]; exact he
  refine ⟨hq.ledger.wf h.wf, fun t attempt request hmem => ?_, fun t row k hrow hk => ?_, fun i r hr => ?_,
    h.sent.of_log hret hq.log⟩
  · rw [hq.log] at hmem
    obtain ⟨a, ha, hid, hreq⟩ := h.rows t attempt request hmem
    obtain ⟨b, hb, hab⟩ := hq.ledger.later a ha
    exact ⟨b, hb, hab.id.trans hid, hab.request.trans hreq⟩
  · rcases hq.tasks.checkpoint t row k hrow hk with ⟨row₀, hrow₀, hk₀⟩ | ⟨old, row₀, hold, hrow₀, hk₀⟩
    · obtain ⟨request, hr⟩ := h.tasks t row₀ k hrow₀ hk₀
      exact ⟨request, hr.mono hret hlog⟩
    · -- the new task retries the one that reserved
      obtain ⟨request, t₀, hpath, hmem⟩ := h.tasks old row₀ k hrow₀ hk₀
      exact ⟨request, t₀, .head ⟨row, hrow, hold⟩ (Relation.ReflTransGen.mono hret _ _ hpath), hlog _ hmem⟩
  · rw [hq.runs] at hr
    exact (h.runs i r hr).mono ⟨hret, hlog⟩ hq.ledger.later

theorem Honored.setRun (h : Honored s) {checkpoint : Option Checkpoint} {phase : Phase}
    (hok : ∀ r, s.runs.row id = some r → RunOk s { r with checkpoint := checkpoint, phase := phase }) :
    Honored (s.setRun id checkpoint phase) := by
  refine ⟨h.wf, h.rows, h.tasks, fun i r hr => ?_, h.sent⟩
  rcases Table.row_modify_cases hr with ⟨-, r₀, hr₀, rfl⟩ | ⟨-, hr⟩
  · exact hok r₀ hr₀
  · exact h.runs i r hr

theorem State.Retries.writeCheckpoint (h : s.Retries t old) : (s.writeCheckpoint task k).Retries t old := by
  obtain ⟨row, hrow, hold⟩ := h
  refine ⟨_, Table.row_modify_some hrow task _, ?_⟩
  split <;> exact hold

theorem Honored.writeCheckpoint (h : Honored s) (hk : s.Reserved s.log task k.attempt request) :
    Honored (s.writeCheckpoint task k) := by
  have hret : ∀ t old, s.Retries t old → (s.writeCheckpoint task k).Retries t old := fun _ _ => .writeCheckpoint
  refine ⟨h.wf, h.rows, fun t row k' hrow hk' => ?_, fun i r hr => (h.runs i r hr).mono ⟨hret, fun _ he => he⟩ (.refl _),
    h.sent.of_log hret rfl⟩
  rcases Table.row_modify_cases hrow with ⟨rfl, row₀, -, rfl⟩ | ⟨-, hrow⟩
  · cases hk'
    exact ⟨request, hk.mono hret fun _ he => he⟩
  · obtain ⟨request', hr⟩ := h.tasks t row k' hrow hk'
    exact ⟨request', hr.mono hret fun _ he => he⟩

theorem Honored.reservePullRequest (h : Honored s) (hs : s.reservePullRequest task attempt request = some s') :
    Honored s' ∧ s'.Reserved s'.log task attempt request ∧ s.attempts.Later s'.attempts ∧ s'.runs = s.runs := by
  obtain ⟨t, c, l, -, hl, rfl⟩ := State.reservePullRequest_some hs
  have hnext := Ledger.Next.reserve hl
  have hgrows : Grows s { s with attempts := l, log := s.log ++ [.reserved task attempt request] } :=
    ⟨fun _ _ hr => hr, fun _ he => List.mem_append_left _ he⟩
  refine ⟨⟨hnext.wf h.wf, fun t' id req hmem => ?_, fun t' row k hrow hk => ?_, fun i r hr => ?_, ?_⟩, ?_,
    hnext.later, rfl⟩
  · rcases List.mem_append.mp hmem with hmem | hmem
    · obtain ⟨a, ha, hid, hreq⟩ := h.rows t' id req hmem
      obtain ⟨b, hb, hab⟩ := hnext.later a ha
      exact ⟨b, hb, hab.id.trans hid, hab.request.trans hreq⟩
    · cases List.mem_singleton.mp hmem
      rcases Ledger.reserve_cases hl with ⟨rfl, hrow⟩ | ⟨rfl, -, -⟩
      · exact ⟨⟨attempt, c.content, c.dataSet, request, .attempted, false⟩, hrow, rfl, rfl⟩
      · exact ⟨⟨attempt, c.content, c.dataSet, request, .attempted, false⟩,
          List.mem_concat_self, rfl, rfl⟩
  · obtain ⟨req, hr⟩ := h.tasks t' row k hrow hk
    exact ⟨req, hr.mono hgrows.retries hgrows.log⟩
  · exact (h.runs i r hr).mono hgrows hnext.later
  · exact h.sent.append (fun _ _ hr => hr) rfl nofun
  · exact ⟨task, .refl, List.mem_concat_self⟩

theorem Honored.reserved_request (h : Honored s) (ha : s.Known a) (hr : s.Reserved s.log task a.id request) :
    request = a.request := by
  obtain ⟨t, -, hmem⟩ := hr
  obtain ⟨b, hb, hid, hreq⟩ := h.rows t a.id request hmem
  obtain ⟨c, hc, hac⟩ := ha
  have hbc : b = c := h.wf.id b hb c hc (hid.trans hac.id.symm)
  rw [← hreq, hbc, hac.request]

theorem Honored.startPull (h : Honored s) {mayPull : Bool} (hs : s.startPull task mayPull = some s') :
    Honored s' := by
  unfold State.startPull at hs
  split at hs
  · cases hs
  next t c hf =>
  cases hs
  refine ⟨h.wf, h.rows, h.tasks, fun i r hr => ?_, h.sent⟩
  rcases Table.row_insert_cases hr with ⟨-, rfl⟩ | ⟨-, hr⟩
  · exact fun k hk => h.tasks task t k (State.fenced_some hf).1 hk
  · exact h.runs i r hr

theorem Honored.pullStep (h : Honored s) (hs : s.pullStep id attempt request = some s') : Honored s' := by
  unfold State.pullStep at hs
  split at hs
  · cases hs
  next r hrow =>
  have hok := h.runs id r hrow
  have hsame : ∀ {r' : Run}, s.runs.row id = some r' → r' = r := fun hr' => Option.some.inj (hr'.symm.trans hrow)
  split at hs
  · next hph =>
    simp only [RunOk, hph] at hok
    split at hs
    · next k hk =>
      obtain ⟨a, ha, rfl⟩ := Option.map_eq_some_iff.mp hs
      have hid : a.id = k.attempt := by
        have := List.find?_some ha
        simp only [Bool.and_eq_true, beq_iff_eq] at this
        exact this.1
      refine h.setRun fun r' hr' => ?_
      rw [hsame hr']
      refine ⟨⟨a, List.mem_of_find?_eq_some ha, .refl a⟩, fun k' hk' => ?_⟩
      rw [show r.checkpoint = some k' from hk'] at hk
      cases hk
      refine ⟨hid.symm, ?_⟩
      rw [hid]
      exact hok k hk'
    · split at hs <;> cases hs
      · next a ha => exact h.setRun fun r' _ => ⟨a, List.mem_of_find?_eq_some ha, .refl a⟩
      · exact h.setRun fun r' _ => trivial
  · next a hph =>
    simp only [RunOk, hph] at hok
    obtain ⟨u, hu, rfl⟩ := Option.map_eq_some_iff.mp hs
    obtain ⟨hh, hres, hlater, hruns⟩ := h.reservePullRequest hu
    refine (hh.writeCheckpoint hres).setRun fun r' hr' => ?_
    have hr : r' = r := hsame (by rw [← hruns]; exact hr')
    rw [hr]
    refine ⟨hok.mono hlater, fun k hk => ?_⟩
    cases hk
    exact ⟨rfl, a.request, hres.mono (fun _ _ => .writeCheckpoint) fun _ he => he⟩
  · split at hs <;> cases hs
    exact h.setRun fun r' _ => trivial
  · next a hph =>
    simp only [RunOk, hph] at hok
    split at hs
    · cases hs
    split at hs
    · cases hs
    next k hk =>
    split at hs
    · -- accepted: the request goes out again under the reservation that the checkpoint stands for
      cases hs
      obtain ⟨-, request', hr⟩ := hok.2 k hk
      refine h.setRun fun r' hr' => ?_
      rw [hsame hr']
      show s.Reserved s.log r.task a.id a.request
      rw [← h.reserved_request hok.1 hr]
      exact hr
    · split at hs <;> cases hs
      exact h.setRun fun r' _ => trivial
  · next a hph =>
    obtain ⟨u, hu, rfl⟩ := Option.map_eq_some_iff.mp hs
    obtain ⟨hh, hres, -, hruns⟩ := h.reservePullRequest hu
    refine (hh.writeCheckpoint hres).setRun fun r' hr' => ?_
    have hr : r' = r := hsame (by rw [← hruns]; exact hr')
    rw [hr]
    exact hres.mono (fun _ _ => .writeCheckpoint) fun _ he => he
  · next a hph =>
    simp only [RunOk, hph] at hok
    cases hs
    have hrun : Honored (s.setRun id r.checkpoint (.sent a)) := h.setRun fun r' hr' => by rw [hsame hr']; exact hok
    have hgrows : Grows (s.setRun id r.checkpoint (.sent a))
        { s.setRun id r.checkpoint (.sent a) with log := s.log ++ [.sent r.task a.id a.request] } :=
      ⟨fun _ _ hr => hr, fun _ he => List.mem_append_left _ he⟩
    refine ⟨hrun.wf, fun t id req hmem => ?_, fun t row k ht hk => ?_,
      fun i r' hr' => (hrun.runs i r' hr').mono hgrows (.refl _), ?_⟩
    · rcases List.mem_append.mp hmem with hmem | hmem
      · exact hrun.rows t id req hmem
      · cases List.mem_singleton.mp hmem
    · obtain ⟨req, hr⟩ := hrun.tasks t row k ht hk
      exact ⟨req, hr.mono hgrows.retries hgrows.log⟩
    · refine hrun.sent.append (fun _ _ hr => hr) rfl ?_
      intro task attempt request he
      cases he
      exact hok
  · next a hph =>
    simp only [RunOk, hph] at hok
    cases hs
    exact h.writeCheckpoint (k := { attempt := a.id, accepted := true }) hok

end SynapS3.Pull
