import SynapS3.Object.Runs

/-!
# `Object.Newest` — the current version and the newest version

`createVersionAndSetCurrentFromExisting` and `createRestoredVersionAndSetCurrent` read the clock with the
object locked. `createDeleteMarkerAndSetCurrent` reads it before, so a put that commits in between is newer
than the marker that becomes current after it (`overtaken_marker`). It shows when the marker's stack is undone
or a version is deleted: those go by the times.

In runs without that race the current version of every key is its newest (`current_version_newest`).
-/

namespace SynapS3.Object

open ReadCommitted

/-- **The current version is the newest one**, in every run in which no version of a key is as new as a delete marker
    whose transaction has just locked the object. -/
theorem current_version_newest {κ : Type} [DecidableEq κ] [VersionIDs]
    {cfg : Prog.Config (Db (Row.Value (κ := κ)) (Record κ)) Nat (Stmt (Row.Value (κ := κ)) (Record κ)) Stmt.Reply}
    (h : (objectMachine κ true false).lts.Reachable cfg) (k : κ) :
    ((cfg.state.rows (.object k)).isSome = true ↔
      ∃ n v, cfg.state.rows (.version n) = some (some v) ∧ v.key = k) ∧
    ∀ o, cfg.state.rows (.object k) = some o → ∃ v, o.currentVersionID = some v.id ∧
      cfg.state.rows (.version v.id) = some (some v) ∧ v.key = k ∧ v.objectID = o.id ∧
      ∀ n w, cfg.state.rows (.version n) = some (some w) → w.key = k → v.NotOlder w := by
  obtain ⟨hinv, -⟩ := objects_inv h
  have hcurrent : ∀ o, cfg.state.rows (.object k) = some o → ∃ v, o.currentVersionID = some v.id ∧
      cfg.state.rows (.version v.id) = some (some v) ∧ v.key = k ∧ v.objectID = o.id ∧
      ∀ n w, cfg.state.rows (.version n) = some (some w) → w.key = k → v.NotOlder w := by
    intro o ho
    obtain ⟨v, hselect, hpointer, hrow, hk⟩ := (Found.of_inv hinv ho).current
    exact ⟨v, hpointer, hrow, hk, (Found.of_inv hinv ho).owned hrow hk,
      (hinv.keys k).newest rfl v hselect⟩
  refine ⟨⟨fun hsome => ?_, ?_⟩, hcurrent⟩
  · obtain ⟨o, ho⟩ := Option.isSome_iff_exists.mp hsome
    obtain ⟨v, -, hrow, hk, -⟩ := hcurrent o ho
    exact ⟨v.id, v, hrow, hk⟩
  · rintro ⟨n, v, hrow, hk⟩
    obtain ⟨o, ho, -⟩ := (hinv.keys k).owned n v hrow hk
    rw [ho]
    rfl

/-! ## Runs -/

@[reducible] def decimalIDs : VersionIDs := ⟨toString⟩

abbrev oneKey (strict writes : Bool) := @objectMachine decimalIDs Unit _ strict writes

def emptyConfig : Prog.Config (Db (Row.Value (κ := Unit)) (Record Unit)) Nat
    (Stmt (Row.Value (κ := Unit)) (Record Unit)) Stmt.Reply :=
  ⟨⟨⟨fun _ => none, 0, 0, {}⟩, fun _ => none, fun _ => [], fun _ _ => none, fun _ => false, 0⟩, []⟩

theorem emptyConfig_reachable (strict writes : Bool) : (oneKey strict writes).lts.Reachable emptyConfig :=
  .of_init ⟨⟨⟨rfl, rfl⟩, fun _ => rfl, fun _ => rfl, fun _ => rfl, rfl⟩, rfl⟩

def smallDraft : Draft Unit := ⟨(), some 1, 3, "900150983cd24fb0", "text/plain", [], []⟩

abbrev RunLabel := Prog.Label Choice (Env (Request Unit))

def statements (i n : Nat) : List RunLabel := List.replicate n (.act i (.go 0))

def inOrder : List RunLabel :=
  [.env (.start (.write smallDraft [] 0))] ++ statements 0 10 ++
  [.env (.start (.deleteMarker () [] 0))] ++ statements 1 10 ++
  [.env (.start (.write smallDraft [] 0))] ++ statements 2 8

def inOrderState := ((oneKey true false).lts.run emptyConfig inOrder).getD emptyConfig

/-- After a put, a delete and another put the third version is current, and no version is newer. -/
theorem current_version_newest_inOrder : (oneKey true false).lts.Reachable inOrderState ∧
      inOrderState.state.rows (.object ()) = some ⟨1, some 3⟩ ∧
      ∃ v, inOrderState.state.rows (.version 3) = some (some v) ∧
        ∀ n w, inOrderState.state.rows (.version n) = some (some w) → @Version.NotOlder _ decimalIDs v w := by
  have hreach : (oneKey true false).lts.Reachable inOrderState :=
    (emptyConfig_reachable true false).of_run_isSome (by decide +kernel)
  have hobject : inOrderState.state.rows (.object ()) = some ⟨1, some 3⟩ := by decide +kernel
  obtain ⟨v, hid, hrow, -, -, hnewest⟩ := (@current_version_newest _ _ decimalIDs _ hreach ()).2 _ hobject
  rw [← Option.some.inj hid] at hrow
  exact ⟨hreach, hobject, v, hrow, fun n w hw => hnewest n w hw rfl⟩

/-- A delete reads the clock; a put overtakes it; then the delete goes on. -/
def overtaken : List RunLabel :=
  [.env (.start (.write smallDraft [] 0))] ++ statements 0 10 ++
  [.env (.start (.deleteMarker () [] 0))] ++ statements 1 2 ++
  [.env (.start (.write smallDraft [] 0))] ++ statements 2 8 ++ statements 1 8

def overtakenState := ((oneKey false false).lts.run emptyConfig overtaken).getD emptyConfig

/-- **A delete marker becomes current that is older than a version of its key.** -/
theorem overtaken_marker : (oneKey false false).lts.Reachable overtakenState ∧
      ∃ o marker v, overtakenState.state.rows (.object ()) = some o ∧
        o.currentVersionID = some marker.id ∧ overtakenState.state.rows (.version marker.id) = some (some marker) ∧
        overtakenState.state.rows (.version v.id) = some (some v) ∧ marker.objectID = o.id ∧ v.objectID = o.id ∧
        ¬@Version.NotOlder _ decimalIDs marker v := by
  refine ⟨(emptyConfig_reachable false false).of_run_isSome (by decide +kernel), ⟨1, some 2⟩,
    deleteMarker () 2 1 2, smallDraft.version 3 1 3, ?_, rfl, ?_, ?_, rfl, rfl, ?_⟩
  · decide +kernel
  · decide +kernel
  · decide +kernel
  · rintro (h | ⟨h, -⟩)
    · exact absurd h (by decide)
    · exact absurd h (by decide)

/-- **Versions are immutable**: an ID that was used stays used, the row of a version never changes, and a version that
    was deleted does not come back. That it does not leans on the mark that the model leaves in place of a deleted row: the
    source has no such row, only that `NewVersionID` does not draw an ID twice. -/
theorem versions_immutable {κ : Type} [DecidableEq κ] [VersionIDs] {strict writes : Bool}
    {cfg cfg' : Prog.Config (Db (Row.Value (κ := κ)) (Record κ)) Nat (Stmt (Row.Value (κ := κ)) (Record κ)) Stmt.Reply}
    (h : (objectMachine κ strict writes).lts.Reachable cfg)
    (hrun : (objectMachine κ strict writes).lts.Steps cfg cfg') {n : Nat}
    (hused : (cfg.state.rows (.version n)).isSome = true) :
    (cfg'.state.rows (.version n)).isSome = true ∧
      ∀ v, cfg'.state.rows (.version n) = some (some v) → cfg.state.rows (.version n) = some (some v) := by
  have hguar := (hrun.lift (I := (objectMachine κ strict writes).lts.Reachable)
    (R := fun a b => Guar writes a.state.toShared b.state.toShared)
    (fun _ => .refl _ _) (fun _ _ _ => .trans) (fun _ l _ hr hs => hr.steps (.single ⟨l, hs⟩))
    (fun _ l _ hr hs => (objects_inv hr).2 l _ hs) h).2
  exact ⟨hguar.used n hused, fun v => hguar.alive n v hused⟩

def firstPutState := ((oneKey true false).lts.run emptyConfig (inOrder.take 11)).getD emptyConfig

def afterFirstPut := ((oneKey true false).lts.run firstPutState (inOrder.drop 11)).getD emptyConfig

/-- The first version is as it was when others became current. -/
theorem versions_immutable_inOrder : (afterFirstPut.state.rows (.object ())).bind (·.currentVersionID) = some 3 ∧
      ∀ v, afterFirstPut.state.rows (.version 0) = some (some v) →
        firstPutState.state.rows (.version 0) = some (some v) := by
  have hreach : (oneKey true false).lts.Reachable firstPutState :=
    (emptyConfig_reachable true false).of_run_isSome (by decide +kernel)
  have hrun : (oneKey true false).lts.Steps firstPutState afterFirstPut := .of_run_isSome (by decide +kernel)
  exact ⟨by decide +kernel, (@versions_immutable _ _ decimalIDs _ _ _ _ hreach hrun 0 (by decide +kernel)).2⟩

end SynapS3.Object
