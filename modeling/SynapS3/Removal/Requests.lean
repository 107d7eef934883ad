import Mathlib.Data.List.Dedup
import SynapS3.Removal.Invariant

/-!
# `Removal.Requests` — the transactions on one request keep the invariant
-/

namespace SynapS3.Removal

variable {s s' : State} {id task : Nat} {statuses : List RequestStatus} {a : Unit} {referenced : Nat → Bool}

@[simp] theorem ok_owned {x : State × Request × List (Nat × CleanupCopy)} : (owned id task statuses).Ok s x s' ↔
      ∃ r, Owned s id task statuses r ∧ x = (s, r, s.members id) ∧ s' = s := by
  simp only [owned, Tx.ok_bind, Tx.ok_read, Tx.ok_orFail, Tx.ok_require, Tx.ok_pure, Bool.and_eq_true,
    Bool.or_eq_true, beq_iff_eq, List.isEmpty_iff, List.contains_iff_mem, Owned]
  constructor
  · rintro ⟨_, _, ⟨rfl, rfl⟩, r, _, ⟨hr, rfl⟩, _, _, ⟨⟨ht, hst⟩, rfl⟩, rfl, rfl⟩
    exact ⟨r, ⟨hr, ht, hst⟩, rfl, rfl⟩
  · rintro ⟨r, ⟨hr, ht, hst⟩, rfl, rfl⟩
    exact ⟨s', s', ⟨rfl, rfl⟩, r, s', ⟨hr, rfl⟩, (), s', ⟨⟨ht, hst⟩, rfl⟩, rfl, rfl⟩

theorem ok_owned_bind {α : Type} {a : α} {f : State × Request × List (Nat × CleanupCopy) → RemovalTx α} :
    (owned id task statuses >>= f).Ok s a s' ↔
      ∃ r, Owned s id task statuses r ∧ (f (s, r, s.members id)).Ok s a s' := by
  rw [Tx.ok_bind]
  constructor
  · rintro ⟨x, t, h, hf⟩
    obtain ⟨r, ho, rfl, rfl⟩ := ok_owned.mp h
    exact ⟨r, ho, hf⟩
  · exact fun ⟨r, ho, hf⟩ => ⟨_, s, ok_owned.mpr ⟨r, ho, rfl, rfl⟩, hf⟩

theorem Owned.open {r : Request} (h : Inv s) (ho : Owned s id task statuses r) : r.status.terminal = false := by
  rw [← Bool.not_eq_true]
  intro hterm
  have := (h.status id r ho.1).owner hterm
  rw [ho.2.1] at this
  cases this

theorem members_row {i : Nat} (h : i ∈ (s.members id).map Prod.fst) :
    ∃ c, s.copies.row i = some c ∧ c.request = some id := by
  obtain ⟨⟨j, c⟩, hm, rfl⟩ := List.mem_map.mp h
  exact ⟨c, State.mem_members.mp hm⟩

theorem detach_move (h : Inv s) {i : Nat} {c : CleanupCopy} (hc : s.copies.row i = some c)
    (hreq : c.request = some id) : CopyMove s id c { c with request := none } :=
  .change hreq ⟨rfl, rfl, rfl⟩ (.inl rfl) fun hst => (h.copy i c hc).removed hst

/-! ## Sealing -/

theorem dropped_sublist (referenced : Nat → Bool) (maxPieces : Nat) (ms : List (Nat × CleanupCopy)) (k : Nat) :
    (dropped referenced maxPieces k ms).Sublist (ms.map Prod.fst) := by
  induction ms generalizing k with
  | nil => exact .slnil
  | cons m ms ih =>
    simp only [dropped, List.map_cons]
    split
    · exact (ih k).cons_cons _
    · exact (ih (k + 1)).cons _

theorem ok_seal {maxPieces : Nat} (h : (sealRemovalRequest id task maxPieces referenced).Ok s a s') :
    ∃ r, Owned s id task [.collecting] r ∧
      s' = (s.detach (dropped referenced maxPieces 0 (s.members id))).setRequest id fun r =>
        if (dropped referenced maxPieces 0 (s.members id)).length = (s.members id).length then
          { r with status := .abandoned, task := none }
        else { r with status := .ready } := by
  simp only [sealRemovalRequest, Tx.ok_require_bind, ok_owned_bind, Tx.ok_write] at h
  obtain ⟨_, r, ho, rfl⟩ := h
  exact ⟨r, ho, rfl⟩

theorem Inv.seal {maxPieces : Nat} (h : Inv s)
    (hok : (sealRemovalRequest id task maxPieces referenced).Ok s a s') : Next true s s' := by
  obtain ⟨r, ho, rfl⟩ := ok_seal hok
  have hcol : r.status = .collecting := by simpa using ho.2.2
  have hnone := (h.status id r ho.1).collecting hcol
  refine h.calmMoves (Moves.of_rows ho rfl ?_ ?_ (fun _ _ => rfl) rfl ?_ rfl rfl rfl) rfl ?_ ?_ ?_ ?_
  · split <;> rfl
  · exact fun _ => hcol
  · intro i hi c hc
    obtain ⟨c', hc', hreq⟩ := members_row ((dropped_sublist _ _ _ _).subset hi)
    rw [hc] at hc'
    cases hc'
    exact detach_move h hc hreq
  · split <;> rfl
  · split <;> nofun
  · refine (h.sends id).frame_quiet rfl ?_
    rw [hnone]
    nofun
  · constructor
    · intro hterm
      split
      · rfl
      · next hne => rw [if_neg hne] at hterm; cases hterm
    · intro _; exact hnone
    · intro _; show ∀ send ∈ s.sends id, _; rw [hnone]; nofun
    · intro hset
      split at hset <;> cases hset

/-! ## Members -/

theorem ok_selectMembers_bind {members : List (Nat × CleanupCopy)} {ids : List Nat} {α : Type} {a : α}
    {f : List (Nat × CleanupCopy) → RemovalTx α} :
    (selectMembers members ids >>= f).Ok s a s' ↔
      (members.filter fun m => ids.contains m.1).length = ids.dedup.length ∧
        (f (members.filter fun m => ids.contains m.1)).Ok s a s' := by
  simp only [selectMembers, Tx.ok_bind, Tx.ok_require, Tx.ok_pure, decide_eq_true_eq]
  constructor
  · rintro ⟨_, _, ⟨_, _, ⟨hlen, rfl⟩, rfl, rfl⟩, hf⟩
    exact ⟨hlen, hf⟩
  · rintro ⟨hlen, hf⟩
    exact ⟨_, s, ⟨(), s, ⟨hlen, rfl⟩, rfl, rfl⟩, hf⟩

theorem ok_changeMembers {ids : List Nat} {status : Option CopyStatus} {detach : Bool}
    (h : (changeMembers id task ids status detach).Ok s a s') :
    ∃ r sel, Owned s id task [] r ∧ r.status.terminal = false ∧
      ((∀ send ∈ s.sends id, send.possiblyAccepted = false) ∨ (detach = false ∧ status ≠ some .failed)) ∧
      sel ⊆ (s.members id).map Prod.fst ∧ sel ⊆ ids ∧
      (s' = (s.setCopies sel fun c =>
          { c with status := status.getD c.status, request := if detach then none else c.request }) ∨
        (detach = true ∧ s' = (s.setCopies sel fun c =>
          { c with status := status.getD c.status, request := if detach then none else c.request }).setRequest id
            fun r => { r with status := .abandoned, task := none, attention := none })) := by
  simp only [changeMembers, ok_selectMembers_bind, Tx.ok_require_bind, ok_owned_bind, Tx.ok_ite,
    Tx.ok_write, Bool.or_eq_true, Bool.not_eq_true', Bool.or_eq_false_iff, Bool.and_eq_true,
    latestPossiblyAcceptedSend_isNone] at h
  obtain ⟨r, ho, hacc, hterm, _, hlast⟩ := h
  refine ⟨r, ((s.members id).filter fun m => ids.contains m.1).map Prod.fst, ho, hterm, ?_,
    (List.filter_sublist.map Prod.fst).subset, ?_, ?_⟩
  · exact hacc.imp_right fun hd => ⟨hd.1, by simpa using hd.2⟩
  · intro i hi
    obtain ⟨m, hm, rfl⟩ := List.mem_map.mp hi
    simpa using (List.mem_filter.mp hm).2
  · rcases hlast with ⟨⟨hd, _⟩, _, rfl⟩ | ⟨_, rfl⟩
    · exact .inr ⟨hd, rfl⟩
    · exact .inl rfl

theorem Inv.changeMembers {ids : List Nat} {status : Option CopyStatus} {detach : Bool} (h : Inv s)
    (hok : (changeMembers id task ids status detach).Ok s a s')
    (hkind : status = none ∧ detach = true ∨ status = some .failed ∧ detach = true ∨ status = some .removed)
    (hseen : status = some .removed → ∀ i ∈ ids, ∀ c, s.copies.row i = some c → (c.dataSet, c.piece) ∈ s.seen) :
    Next true s s' := by
  obtain ⟨r, sel, ho, hterm, hacc, hmem, hids, hs'⟩ := ok_changeMembers hok
  have hst := h.status id r ho.1
  have hmove : ∀ i ∈ sel, ∀ c, s.copies.row i = some c → CopyMove s id c
      { c with status := status.getD c.status, request := if detach then none else c.request } := by
    intro i hi c hc
    obtain ⟨c', hc', hreq⟩ := members_row (hmem hi)
    rw [hc] at hc'
    cases hc'
    refine .change hreq ⟨rfl, rfl, rfl⟩ ?_ ?_
    · rcases hkind with ⟨_, rfl⟩ | ⟨_, rfl⟩ | rfl
      · exact .inl rfl
      · exact .inl rfl
      · cases detach with
        | true => exact .inl rfl
        | false => exact .inr ⟨hreq, .inr rfl⟩
    · intro hrem
      rcases hkind with ⟨rfl, _⟩ | ⟨rfl, _⟩ | rfl
      · exact (h.copy i c hc).removed hrem
      · cases hrem
      · exact hseen rfl i (hids hi) c hc
  rcases hs' with rfl | ⟨rfl, rfl⟩
  · refine h.calmMoves (Moves.of_rows (f := fun r => r) ho (Table.modify_self _ _).symm rfl (fun hc => hc)
      (fun _ _ => rfl) rfl hmove rfl rfl rfl) rfl rfl (fun hq => hq) ?_ ?_
    · rcases hacc with hquiet | ⟨rfl, hne⟩
      · exact (h.sends id).frame_quiet rfl hquiet
      · refine (h.sends id).frame rfl fun i c hc hreq => ?_
        by_cases hi : sel.contains i = true
        · exact ⟨{ c with status := status.getD c.status },
            by simp only [State.setCopies, Table.row_updateWhere, hc, Option.map_some, hi]; simp, hreq, rfl⟩
        · exact ⟨c, by simp only [State.setCopies, Table.row_updateWhere, hc, Option.map_some, hi]; simp,
            hreq, rfl⟩
    · refine ⟨hst.owner, hst.collecting, hst.quiet, fun hset => ?_⟩
      rw [hset] at hterm
      cases hterm
  · have hquiet : ∀ send ∈ s.sends id, send.possiblyAccepted = false := by
      rcases hacc with hq | ⟨hd, _⟩
      · exact hq
      · cases hd
    refine h.calmMoves (Moves.of_rows ho rfl rfl nofun (fun _ _ => rfl) rfl hmove rfl rfl rfl) rfl rfl nofun
      ((h.sends id).frame_quiet rfl hquiet) ⟨fun _ => rfl, nofun, fun _ => hquiet, nofun⟩

/-! ## Sends -/

theorem latestExposedSend_of_pairwise {sends : List Send} {R : Send → Send → Prop} (h : sends.Pairwise R)
    {a : Send} (ha : a ∈ sends) (hx : a.exposed = true) :
    ∃ e, latestExposedSend sends = some e ∧ e ∈ sends ∧ (a = e ∨ R a e) := by
  unfold latestExposedSend
  cases hf : sends.reverse.find? (·.exposed) with
  | none =>
    have := List.find?_eq_none.mp hf a (List.mem_reverse.mpr ha)
    exact absurd hx this
  | some e =>
    obtain ⟨hex, as, bs, hsplit, hbefore⟩ := List.find?_eq_some_iff_append.mp hf
    have hs : sends = bs.reverse ++ e :: as.reverse := by
      rw [← List.reverse_reverse sends, hsplit]; simp
    refine ⟨e, rfl, by rw [hs]; simp, ?_⟩
    rw [hs] at ha h
    rcases List.mem_append.mp ha with hb | hb
    · exact .inr ((List.pairwise_append.mp h).2.2 a hb e (List.mem_cons_self ..))
    rcases List.mem_cons.mp hb with rfl | hb
    · exact .inl rfl
    · have := hbefore a (List.mem_reverse.mp hb)
      rw [hx] at this
      cases this

theorem latestSendNo_of_numbers {sends : List Send} (h : sends.map Send.sendNo = List.range' 1 sends.length) :
    latestSendNo sends = sends.length := by
  have key : ∀ (n : Nat) (l : List Send) (k : Nat), l.map Send.sendNo = List.range' (k + 1) n →
      l.foldl (fun n send => max n send.sendNo) k = k + n := by
    intro n
    induction n with
    | zero => intro l k hl; simp only [List.range'_zero, List.map_eq_nil_iff] at hl; rw [hl]; rfl
    | succ n ih =>
      intro l k hl
      cases l with
      | nil => simp [List.range'_succ] at hl
      | cons x l =>
        simp only [List.map_cons, List.range'_succ, List.cons.injEq] at hl
        rw [List.foldl_cons, hl.1, Nat.max_eq_right (by omega), ih l (k + 1) hl.2]
        omega
  simpa [latestSendNo] using key sends.length sends 0 h

theorem ok_admit {input : SendInput} (h : (admitRemovalSend input referenced).Ok s a s') :
    ∃ r sel, Owned s input.request input.task [.ready, .submitted] r ∧
      input.copyIDs ≠ [] ∧ input.sendNo = latestSendNo (s.sends input.request) + 1 ∧
      sel = (s.members input.request).filter
        (fun m => input.copyIDs.contains m.1 && m.2.status != .removed) ∧
      sel.length = input.copyIDs.dedup.length ∧
      (∀ e, latestExposedSend (s.sends input.request) = some e →
        ∀ m ∈ sel, (⟨m.1, m.2.piece⟩ : SendPiece) ∈ e.pieces) ∧
      input.queueLength + (s.inFlight r.dataSet input.request input.snapshotBlock).length + sel.length
        ≤ maxEnqueuedRemovals ∧
      s' = (s.setSends input.request (s.sends input.request ++
        [{ sendNo := input.sendNo, task := input.task,
           pieces := sel.map fun m => (⟨m.1, m.2.piece⟩ : SendPiece) }])).setRequest input.request
        fun r => { r with status := .submitted, attention := none } := by
  simp only [admitRemovalSend, Tx.ok_require_bind, ok_owned_bind, Tx.ok_write, Bool.and_eq_true,
    decide_eq_true_eq, beq_iff_eq, Bool.not_eq_true', List.isEmpty_eq_false_iff] at h
  obtain ⟨⟨⟨_, hne⟩, _⟩, r, ho, hno, hlen, hsub, _, hroom, rfl⟩ := h
  refine ⟨r, _, ho, hne, hno, rfl, hlen, ?_, hroom, rfl⟩
  intro e he m hm
  rw [he] at hsub
  simp only [Option.all_some, List.all_eq_true, List.contains_iff_mem] at hsub
  exact hsub _ (List.mem_map_of_mem hm)

theorem Inv.admitSend {input : SendInput} (h : Inv s) (hok : (admitRemovalSend input referenced).Ok s a s') :
    Next false s s' := by
  obtain ⟨r, sel, ho, hne, hno, hsel, hlen, hsub, _, rfl⟩ := ok_admit hok
  have hold := h.sends input.request
  have hmem : ∀ m ∈ sel, s.copies.row m.1 = some m.2 ∧ m.2.request = some input.request := by
    intro m hm
    rw [hsel] at hm
    exact State.mem_members.mp (List.mem_filter.mp hm).1
  have hsends : ∀ sends, (s.setSends input.request sends).sends input.request = sends := fun _ => if_pos rfl
  refine h.moves (Moves.of_request ho rfl rfl nofun ?_ rfl rfl rfl rfl) ?_ ⟨nofun, nofun, nofun, nofun⟩ nofun
  · exact fun q hq => if_neg hq
  · constructor
    · show ((s.setSends input.request _).sends input.request).map _ = _
      rw [hsends, List.map_append, hold.numbers, hno, latestSendNo_of_numbers hold.numbers,
        show ((s.setSends input.request _).setRequest input.request _).sends input.request = _ from hsends _,
        List.length_append, List.length_singleton, List.range'_concat]
      simp [Nat.add_comm]
    · show ((s.setSends input.request _).sends input.request).Pairwise _
      rw [hsends]
      refine List.pairwise_append.mpr ⟨hold.nested, List.pairwise_singleton _ _, ?_⟩
      rintro x hx _ hlast hexp p hp
      rw [List.mem_singleton.mp hlast] at hp
      obtain ⟨m, hm, rfl⟩ := List.mem_map.mp hp
      obtain ⟨e, he, _, hor⟩ := latestExposedSend_of_pairwise hold.nested hx hexp
      have hpe := hsub e he m hm
      rcases hor with rfl | hR
      · exact hpe
      · exact hR hexp hpe
    · show ∀ send ∈ (s.setSends input.request _).sends input.request, _
      rw [hsends]
      intro send hsend hacc p hp
      rcases List.mem_append.mp hsend with hs | hs
      · exact hold.pieces send hs hacc p hp
      · rw [List.mem_singleton.mp hs] at hp
        obtain ⟨m, hm, rfl⟩ := List.mem_map.mp hp
        exact ⟨m.2, (hmem m hm).1, (hmem m hm).2, rfl⟩
    · show ∀ send ∈ (s.setSends input.request _).sends input.request, _
      rw [hsends]
      intro send hsend hempty
      rcases List.mem_append.mp hsend with hs | hs
      · exact hold.nonempty send hs hempty
      rw [List.mem_singleton.mp hs] at hempty
      have hnil : sel = [] := List.map_eq_nil_iff.mp hempty
      rw [hnil] at hlen
      obtain ⟨i, hi⟩ := List.exists_mem_of_ne_nil _ hne
      have hdedup := List.mem_dedup.mpr hi
      rw [List.length_eq_zero_iff.mp hlen.symm] at hdedup
      cases hdedup

theorem Send.record_spec {x y : Send} {evidence : Evidence} (h : x.record evidence = some y) :
    y.sendNo = x.sendNo ∧ y.pieces = x.pieces ∧ (y.exposed = true → x.exposed = true) ∧
      (y.possiblyAccepted = true → x.possiblyAccepted = true) ∧
      (evidence.rejects = false → evidence.valid x = true → y.possiblyAccepted = true) := by
  unfold Send.record at h
  cases evidence <;> dsimp only at h <;> split at h <;> cases h <;>
    simp_all [Send.exposed, Send.possiblyAccepted, Evidence.rejects, Evidence.valid]

def withEvidence (sends : List Send) (sendNo : Nat) (recorded : Send) : List Send :=
  sends.map fun x => if x.sendNo = sendNo then recorded else x

theorem ok_sendEvidence {sendNo : Nat} {evidence : Evidence}
    (h : (sendEvidence id task sendNo evidence).Ok s a s') :
    ∃ r x y, Owned s id task [.submitted, .ready] r ∧ x ∈ s.sends id ∧ x.sendNo = sendNo ∧
      evidence.valid x = true ∧ x.record evidence = some y ∧
      s' = (s.setSends id (withEvidence (s.sends id) sendNo y)).setRequest id fun r =>
        if evidence.rejects && (latestPossiblyAcceptedSend (withEvidence (s.sends id) sendNo y)).isNone then
          { r with status := .ready }
        else r := by
  simp only [sendEvidence, Tx.ok_require_bind, ok_owned_bind, Tx.ok_orFail_bind, Tx.ok_write] at h
  obtain ⟨r, ho, x, hx, hv, y, hy, rfl⟩ := h
  exact ⟨r, x, y, ho, List.mem_of_find?_eq_some hx, by simpa using List.find?_some hx, hv, hy, rfl⟩

theorem Inv.evidence {sendNo : Nat} {evidence : Evidence} (h : Inv s)
    (hok : (sendEvidence id task sendNo evidence).Ok s a s') : Next false s s' := by
  obtain ⟨r, x, y, ho, hx, rfl, hv, hy, rfl⟩ := ok_sendEvidence hok
  have hold := h.sends id
  have hst := h.status id r ho.1
  obtain ⟨hno, hpieces, hexp, hacc, hrej⟩ := Send.record_spec hy
  have hstat : r.status = .submitted ∨ r.status = .ready := by simpa using ho.2.2
  have hinj : ∀ z ∈ s.sends id, z.sendNo = x.sendNo → z = x := by
    intro z hz he
    refine List.inj_on_of_nodup_map ?_ hz hx he
    rw [hold.numbers]
    exact List.nodup_range'
  -- each send keeps its number and pieces, and is exposed or accepted only if it was
  have hfun : ∀ z ∈ s.sends id, ∀ w, w = (if z.sendNo = x.sendNo then y else z) →
      w.sendNo = z.sendNo ∧ w.pieces = z.pieces ∧ (w.exposed = true → z.exposed = true) ∧
        (w.possiblyAccepted = true → z.possiblyAccepted = true) := by
    rintro z hz w rfl
    split
    · next he => rw [hinj z hz he]; exact ⟨hno, hpieces, hexp, hacc⟩
    · exact ⟨rfl, rfl, fun h => h, fun h => h⟩
  have hsends : ∀ sends, (s.setSends id sends).sends id = sends := fun _ => if_pos rfl
  refine h.moves (Moves.of_request ho rfl ?_ ?_ (fun q hq => if_neg hq) rfl rfl rfl rfl) ?_ ?_ nofun
  · split <;> rfl
  · intro hc
    split at hc
    · cases hc
    · exact hc
  · constructor
    · show ((s.setSends id _).sends id).map _ = List.range' 1 ((s.setSends id _).sends id).length
      rw [hsends, withEvidence, List.length_map, List.map_map, ← hold.numbers]
      exact List.map_congr_left fun z hz => (hfun z hz _ rfl).1
    · show ((s.setSends id _).sends id).Pairwise _
      rw [hsends, withEvidence, List.pairwise_map]
      refine hold.nested.imp_of_mem fun {z w} hz hw hR hzexp => ?_
      obtain ⟨_, hzp, hze, _⟩ := hfun z hz _ rfl
      rw [(hfun w hw _ rfl).2.1, hzp]
      exact hR (hze hzexp)
    · show ∀ send ∈ (s.setSends id _).sends id, _
      rw [hsends]
      intro send hsend hsacc p hp
      obtain ⟨z, hz, rfl⟩ := List.mem_map.mp hsend
      obtain ⟨_, hzp, _, hza⟩ := hfun z hz _ rfl
      rw [hzp] at hp
      exact hold.pieces z hz (hza hsacc) p hp
    · show ∀ send ∈ (s.setSends id _).sends id, _
      rw [hsends]
      intro send hsend
      obtain ⟨z, hz, rfl⟩ := List.mem_map.mp hsend
      rw [(hfun z hz _ rfl).2.1]
      exact hold.nonempty z hz
  · have hopen := Owned.open h ho
    have hquiet : ∀ r', r' = (if evidence.rejects &&
          (latestPossiblyAcceptedSend (withEvidence (s.sends id) x.sendNo y)).isNone then
          { r with status := .ready } else r) → r'.status = .ready →
        ∀ send ∈ withEvidence (s.sends id) x.sendNo y, send.possiblyAccepted = false := by
      rintro r' rfl hready
      split at hready
      · next hb =>
          simp only [Bool.and_eq_true] at hb
          exact latestPossiblyAcceptedSend_isNone.mp hb.2
      -- the request was ready before: no send of it may have been accepted
      intro send hsend
      obtain ⟨z, hz, rfl⟩ := List.mem_map.mp hsend
      have hzq := hst.quiet (.inl hready) z hz
      rw [← Bool.not_eq_true] at hzq ⊢
      exact fun hc => hzq ((hfun z hz _ rfl).2.2.2 hc)
    constructor
    · intro hterm
      split at hterm
      · cases hterm
      · rw [hopen] at hterm; cases hterm
    · intro hc
      split at hc
      · cases hc
      · rcases hstat with hs | hs <;> rw [hs] at hc <;> cases hc
    · intro hra
      show ∀ send ∈ (s.setSends id _).sends id, _
      rw [hsends]
      rcases hra with hr | hr
      · exact hquiet _ rfl hr
      · split at hr
        · cases hr
        · rcases hstat with hs | hs <;> rw [hs] at hr <;> cases hr
    · intro hc
      split at hc
      · cases hc
      · rcases hstat with hs | hs <;> rw [hs] at hc <;> cases hc

/-! ## The request's row alone -/

/-- A transaction that changes only the row of the request keeps the invariant if the new status is justified
    by the sends and members there are. -/
theorem Inv.setRequest {r : Request} {f : Request → Request} {b : Bool} (h : Inv s) (ho : Owned s id task statuses r)
    (hreq : s'.requests = s.requests.modify id f) (hd : (f r).dataSet = r.dataSet) (hsends : s'.sends = s.sends)
    (hcopies : s'.copies = s.copies) (hchain : s'.chain = s.chain) (hruns : s'.runs = s.runs)
    (hseen : s'.seen = s.seen) (hcol : (f r).status = .collecting → r.status = .collecting)
    (hst : StatusInv s id (f r))
    (hcalm : b = true → (f r).queuedBlock = r.queuedBlock ∧ ((f r).status = .queued → r.status = .queued)) :
    Next b s s' := by
  have hm := Moves.of_request ho hreq hd hcol (fun q _ => by rw [hsends]) hcopies hchain hruns hseen
  exact h.moves hm
    ((h.sends id).frame (by rw [hsends]) fun i c hc hreq => ⟨c, by rw [hcopies]; exact hc, hreq, rfl⟩)
    (hst.frame (by rw [hsends]) fun i c hc _ => by rw [← hcopies]; exact hc)
    fun hb => hm.calm hsends (hcalm hb).1 (hcalm hb).2

theorem Inv.setAttention {r : Request} (h : Inv s) (ho : Owned s id task statuses r) (attention : Option AttentionCode) :
    Next true s (s.setRequest id fun r => { r with attention := attention }) := by
  have hst := h.status id r ho.1
  exact h.setRequest ho rfl rfl rfl rfl rfl rfl rfl (fun hc => hc) ⟨hst.owner, hst.collecting, hst.quiet, hst.settled⟩
    fun _ => ⟨rfl, fun hq => hq⟩

theorem Inv.attention {code : AttentionCode} (h : Inv s) (hok : (setRemovalAttention id task code).Ok s a s') :
    Next true s s' := by
  simp only [setRemovalAttention, ok_owned_bind, Tx.ok_write] at hok
  obtain ⟨r, ho, rfl⟩ := hok
  exact h.setAttention ho _

theorem Inv.clearAttention (h : Inv s) (hok : (clearRemovalAttention id task).Ok s a s') : Next true s s' := by
  simp only [clearRemovalAttention, ok_owned_bind, Tx.ok_write] at hok
  obtain ⟨r, ho, rfl⟩ := hok
  exact h.setAttention ho _

theorem ok_markQueued {block : Nat} {withoutSend : Bool} (hok : (markQueued id task block withoutSend).Ok s a s') :
    ∃ r, Owned s id task (if withoutSend then [.ready] else [.submitted]) r ∧
      s' = s.setRequest id fun r => { r with status := .queued, queuedBlock := some block, attention := none } := by
  simp only [markQueued, ok_owned_bind, Tx.ok_write] at hok
  obtain ⟨r, ho, rfl⟩ := hok
  exact ⟨r, ho, rfl⟩

theorem Inv.markQueued {block : Nat} {withoutSend : Bool} (h : Inv s)
    (hok : (markQueued id task block withoutSend).Ok s a s') : Next false s s' := by
  obtain ⟨r, ho, rfl⟩ := ok_markQueued hok
  exact h.setRequest ho rfl rfl rfl rfl rfl rfl rfl nofun ⟨nofun, nofun, nofun, nofun⟩ nofun

theorem Inv.settle (h : Inv s) (hok : (settleRemovalRequest id task).Ok s a s') : Next true s s' := by
  simp only [settleRemovalRequest, ok_owned_bind, Tx.ok_require_bind, Tx.ok_write, List.all_eq_true,
    beq_iff_eq] at hok
  obtain ⟨r, ho, hall, rfl⟩ := hok
  refine h.setRequest ho rfl rfl rfl rfl rfl rfl rfl (by simp) ⟨fun _ => rfl, by simp, by simp, ?_⟩
    fun _ => ⟨rfl, by simp⟩
  exact fun _ i c hc hreq => hall (i, c) (State.mem_members.mpr ⟨hc, hreq⟩)

theorem Inv.transfer (h : Inv s) (hok : (transferRemovalTaskOwner id task).Ok s a s') : Next true s s' := by
  simp only [transferRemovalTaskOwner, ok_owned_bind, Tx.ok_write] at hok
  obtain ⟨r, ho, rfl⟩ := hok
  have hst := h.status id r ho.1
  refine h.setRequest ho rfl rfl rfl rfl rfl rfl rfl (fun hc => hc) ⟨?_, hst.collecting, hst.quiet, hst.settled⟩
    fun _ => ⟨rfl, fun hq => hq⟩
  intro hterm
  have hopen := Owned.open h ho
  exact absurd (hopen.symm.trans hterm) (by decide)

theorem Inv.abandon (h : Inv s) (hok : (abandonRemovalRequest id task).Ok s a s') : Next true s s' := by
  simp only [abandonRemovalRequest, ok_owned_bind, Tx.ok_require_bind, Tx.ok_write,
    latestPossiblyAcceptedSend_isNone] at hok
  obtain ⟨r, ho, hquiet, rfl⟩ := hok
  refine h.calmMoves (Moves.of_rows ho rfl rfl (by simp) (fun _ _ => rfl) rfl ?_ rfl rfl rfl) rfl rfl (by simp)
    ((h.sends id).frame_quiet rfl hquiet) ⟨fun _ => rfl, by simp, fun _ => hquiet, by simp⟩
  intro i hi c hc
  obtain ⟨c', hc', hreq⟩ := members_row hi
  rw [hc] at hc'
  cases hc'
  exact detach_move h hc hreq

end SynapS3.Removal
