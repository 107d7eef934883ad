import SynapS3.Queue.Line

/-!
# `Queue.Heads` — schedules stay single-headed

For every registered schedule, in every reachable state: there is at most one round of its type that has not
ended, and the schedule points at it; the generation of the schedule is that of the round it points at, and
the number of cycles that were dispatched.
-/

namespace SynapS3.Queue

open ReadCommitted Tasks

/-- **Schedules stay single-headed.** -/
theorem schedules_single_headed {ι κ : Type} [DecidableEq ι] {g : Registry ι κ}
    {cfg : Prog.Config (Db (Row.Value ι κ) Record) Nat (Stmt (Row.Value ι κ) Record) Stmt.Reply}
    (h : (queueMachine g).lts.Reachable cfg) :
    (∀ d ∈ g.periodic,
      (∀ a b t u, cfg.state.rows (.task a) = some t → cfg.state.rows (.task b) = some u → t.type = d.type →
        u.type = d.type → t.status = .pending ∨ t.status = .running →
        u.status = .pending ∨ u.status = .running → a = b) ∧
      (∀ a t, cfg.state.rows (.task a) = some t → t.type = d.type → t.status = .pending ∨ t.status = .running →
        ∃ s, cfg.state.rows (.schedule d.key) = some s ∧ s.latestTaskID = some a) ∧
      (∀ s l, cfg.state.rows (.schedule d.key) = some s → s.latestTaskID = some l →
        ∃ t, cfg.state.rows (.task l) = some t ∧ t.type = d.type ∧ t.generation = some s.generation) ∧
      (∀ s, cfg.state.rows (.schedule d.key) = some s → s.generation = cfg.state.ghost.cycles.count d.key)) ∧
    cfg.state.ghost.conflicts = [] := by
  obtain ⟨hi, -⟩ := queue_inv h
  have hopen : ∀ t : Task ι κ, t.status = .pending ∨ t.status = .running → t.status.terminal = false := by
    rintro t (ht | ht)
    · rw [ht]; rfl
    · rw [ht]; rfl
  refine ⟨fun d hd => ⟨fun a b t u ht hu htt hut hts hus => ?_, fun a t ht htt hts => ?_, fun s l hs hl => ?_,
    fun s hs => ?_⟩, hi.conflicts⟩
  · obtain ⟨s, hs, hla⟩ := (hi.heads d hd).only a t ht htt (hopen t hts)
    obtain ⟨s', hs', hlb⟩ := (hi.heads d hd).only b u hu hut (hopen u hus)
    rw [hs] at hs'
    cases hs'
    rw [hla] at hlb
    exact Option.some.inj hlb
  · exact (hi.heads d hd).only a t ht htt (hopen t hts)
  · exact (hi.heads d hd).latest s l hs hl
  · have hgen := (hi.heads d hd).generation
    rw [hs] at hgen
    exact hgen

/-- A retried cycle is still the first one, and the schedule points at the retry. -/
theorem schedules_single_headed_retried :
    (retriedTwiceState.state.rows (.schedule capacitySchedule.key)).map (fun s => (s.latestTaskID, s.generation)) =
        some (some 2, 1) ∧
      ∃ t, retriedTwiceState.state.rows (.task 2) = some t ∧ t.type = .cacheCapacityReconcile ∧
        t.generation = some 1 := by
  have hschedule : (retriedTwiceState.state.rows (.schedule capacitySchedule.key)).map
      (fun s : TaskSchedule => (s.latestTaskID, s.generation)) = some (some 2, 1) := by decide +kernel
  refine ⟨hschedule, ?_⟩
  obtain ⟨s, hs, hsc⟩ := Option.map_eq_some_iff.mp hschedule
  obtain ⟨hlatest, hgen⟩ := Prod.mk.inj hsc
  obtain ⟨-, -, hpoints, -⟩ := (schedules_single_headed retriedTwice_reachable).1
    capacitySchedule (List.mem_cons_self ..)
  obtain ⟨t, ht, htype, htgen⟩ := hpoints s 2 hs hlatest
  exact ⟨t, ht, htype, by rw [htgen, hgen]⟩

end SynapS3.Queue
