import DemandPaging.Proofs.Machine.Operation
import DemandPaging.Proofs.Scene.Fault
import DemandPaging.Proofs.Scene.FileMapping
import DemandPaging.Proofs.Scene.Fork
import DemandPaging.Proofs.Scene.UserAccess

/-!
# Operations in scenes

Whatever an operation does, in the scene it is a sequence of deeds of the kind that the operation
permits. What each deed keeps, a whole run keeps.
-/

namespace DemandPaging

def Operation.Permits (op : Operation) (m : Machine) (deed : Deed) : Prop :=
  match op with
  | .start _ => deed = .start m.processes.length
  | .finish p | .teardown p => deed.Clearing p
  | .allocate p type va writable loader => ∃ origin, Page.originOf type loader = .ok origin ∧
      deed = .register p
        ⟨m.nextId, va, writable, false, none, none, p, m.layout.pageSize, .uninit origin⟩
  | .remove p va => ∃ page, m.page? p (m.pageBase va) = some page ∧
      (deed.Releasing p page ∨ ∃ base, page.mapping = some base ∧ deed = .regroup p [base])
  | .claim p va => deed.Claiming p (m.pageBase va)
  | .fault p f => deed.Faulting p (m.pageBase f.va)
  | .write p va data => ∃ count, deed = .store p va (data.take count)
  | .map p base length writable f offset =>
      deed.Registering p (fun page => ∃ i, m.layout.MappedPage p base writable f offset
        ((m.file f).mappedBytes length offset).toNat i page) ∨ deed = .regroup p [base]
  | .unmap p va => ∃ base mapping, (m.lookup p va).bind Page.mapping = some base ∧
      (m.process p).mappings.get? base = some mapping ∧
      (deed = .regroup p [base] ∨ deed.Dropping p (· ∈ mapping.members))
  | .fork _ t => deed.Copying t ∨ ∃ bases, deed = .regroup t bases
  | .read .. | .classAt .. | .mappingAt .. => False

namespace Scene

theorem steps_grouped {v : Scene} {p : Nat} {groups : AddressMap FileMapping}
    {allowed : Deed → Prop} (bases : List Vaddr) (hallowed : allowed (.regroup p bases))
    (h : ∀ base ∉ bases, groups.get? base = (v.mappings p).get? base) :
    Steps allowed v (v.grouped p groups) :=
  .single _ hallowed (.regroup groups h)

end Scene

namespace Machine

open Routine

variable {m : Machine} {mem : FlatMemory}

/-! ## Operations -/

theorem steps_claimPage {p : Nat} {va : Vaddr} (k : m.Sound {} mem) :
    Ends (claimPage p va) m Anyhow
      (fun _ next => Scene.Steps (Deed.Claiming p (m.pageBase va)) m.scene next.scene)
      fun _ next => Scene.Steps (Deed.Evicting []) m.scene next.scene := by
  unfold claimPage
  rw [ends_bind, ends_get, ends_bind]
  cases hpage : m.lookup p va with
  | none => exact .refl _
  | some page =>
      rw [ends_orFail_some, ← (k.placed p _ page hpage).address]
      exact steps_claim k List.not_mem_nil List.not_mem_nil List.not_mem_nil

theorem steps_remove {p : Nat} {va : Vaddr} (k : m.Sound {} mem) :
    Ends (removePage p va) m Anyhow
      (fun _ next => Scene.Steps ((Operation.remove p va).Permits m) m.scene next.scene)
      fun _ next => Scene.Steps ((Operation.remove p va).Permits m) m.scene next.scene := by
  refine (steps_removePage k).mono ?_ fun _ _ hnext => .of_eq hnext.2
  intro _ next hnext
  rcases hnext with ⟨page, hpage, hscene⟩
  rw [hscene]
  have hreleased : Scene.Steps ((Operation.remove p va).Permits m)
      (m.scene.grouped p ((m.process p).mappings.leaving page.mapping page.va))
      ((m.scene.grouped p ((m.process p).mappings.leaving page.mapping page.va)).released p page
        (m.entryAt p page.va) (page.frame.map m.pool.content)) := by
    have haddress := (k.placed p _ page hpage).address
    rw [haddress]
    refine (Scene.steps_released ?_ (k.sight_idle hpage)).mono
      fun deed hdeed => ⟨page, hpage, Or.inl hdeed⟩
    rw [haddress]
    exact sight_of_page? hpage
  refine Scene.Steps.trans ?_ hreleased
  cases hbase : page.mapping with
  | none => exact .of_eq (Scene.grouped_self rfl)
  | some base =>
      refine Scene.steps_grouped [base] ⟨page, hpage, Or.inr ⟨base, hbase, rfl⟩⟩ ?_
      intro wa hwa
      exact AddressMap.get?_leaving_of_ne (List.ne_of_not_mem_cons hwa)

theorem steps_map {p f : Nat} {start : Vaddr} {length offset : UInt64} {writable : Bool}
    (k : m.Sound {} mem) :
    Ends (mapFile p start length writable f offset) m Anyhow
      (fun _ next => Scene.Steps ((Operation.map p start length writable f offset).Permits m)
        m.scene next.scene)
      fun _ next => Scene.Steps ((Operation.map p start length writable f offset).Permits m)
        m.scene next.scene := by
  refine (steps_mapFile k).mono ?_ fun _ _ => .of_eq
  intro _ next hnext
  rcases hnext with ⟨-, -, count, v, -, -, -, hpopulated, hsteps, hscene⟩
  rw [hscene]
  refine (hsteps.mono fun _ hdeed => Or.inl hdeed).trans
    (Scene.steps_grouped [start] (Or.inr rfl) ?_)
  intro base hbase
  rw [AddressMap.get?_insert, if_neg (List.ne_of_not_mem_cons hbase), hpopulated.beside]
  rfl

theorem steps_unmap {p : Nat} {va : Vaddr} (k : m.Sound {} mem) :
    Ends (unmapFile p va) m Anyhow
      (fun _ next => Scene.Steps ((Operation.unmap p va).Permits m) m.scene next.scene)
      fun _ _ => False := by
  refine (steps_unmapFile k).mono ?_ fun _ _ hfalse => hfalse
  intro _ next hnext
  rcases hnext with ⟨-, hscene⟩ | ⟨base, mapping, hbase, hget, -, hsteps, -⟩
  · exact .of_eq hscene
  · refine Scene.Steps.trans
      (Scene.steps_grouped [base] ⟨base, mapping, hbase, hget, Or.inl rfl⟩ ?_)
      (hsteps.mono fun deed hdeed => ⟨base, mapping, hbase, hget, Or.inr hdeed⟩)
    intro wa hwa
    rw [AddressMap.get?_erase, if_neg (List.ne_of_not_mem_cons hwa)]
    rfl

theorem steps_copy {s t : Nat} (k : m.Sound {} mem) :
    Ends (fork s t) m Anyhow
      (fun _ next => Scene.Steps ((Operation.fork s t).Permits m) m.scene next.scene)
      fun _ next => Scene.Steps ((Operation.fork s t).Permits m) m.scene next.scene := by
  refine (steps_fork k).mono ?_ fun _ _ hbroken => hbroken.steps.mono fun _ hdeed => Or.inl hdeed
  intro _ next hnext
  rcases hnext with ⟨v, hturns, hscene⟩
  rw [hscene]
  generalize mergeMappings _ _ = merged
  refine (hturns.steps.mono fun _ hdeed => Or.inl hdeed).trans (Scene.steps_grouped
    (merged.keys ++ (v.mappings t).keys) (Or.inr ⟨_, rfl⟩) ?_)
  intro base hbase
  have hnone : ∀ {groups : AddressMap FileMapping}, base ∉ groups.keys →
      groups.get? base = none := by
    intro groups hkey
    cases hget : groups.get? base with
    | none => rfl
    | some mapping => exact absurd (AddressMap.mem_keys_iff.mpr ⟨mapping, hget⟩) hkey
  rw [hnone fun hkey => hbase (List.mem_append_left _ hkey),
    hnone fun hkey => hbase (List.mem_append_right _ hkey)]

theorem steps_perform (op : Operation) (k : m.Sound {} mem) :
    Ends op.perform m Anyhow (fun _ next => Scene.Steps (op.Permits m) m.scene next.scene)
      fun _ next => Scene.Steps (op.Permits m) m.scene next.scene := by
  have hkept : ∀ {next : Machine}, SameScene m next →
      Scene.Steps (op.Permits m) m.scene next.scene := fun hsame => .of_eq hsame.scene
  unfold Operation.perform
  cases op with
  | start accepting =>
      rw [ends_bind]
      refine steps_startProcess.mono ?_ fun _ _ hfalse => hfalse.elim
      intro _ next hnext
      exact .single (.start m.processes.length) rfl hnext.2.2
  | finish p =>
      rw [ends_bind]
      exact (steps_endProcess k).mono (fun _ _ hnext => hnext.1) fun _ _ hfalse => hfalse.elim
  | allocate p type va writable loader =>
      rw [ends_bind]
      refine (steps_allocatePage k).mono ?_ fun _ _ hnext => .of_eq (congrArg scene hnext)
      intro _ next hnext
      rcases hnext with ⟨origin, horigin, hstep⟩
      exact .single _ ⟨origin, horigin, rfl⟩ hstep
  | remove p va =>
      rw [ends_bind]
      exact (steps_remove k).mono (fun _ _ hnext => hnext) fun _ _ hnext => hnext
  | claim p va =>
      rw [ends_bind]
      exact (steps_claimPage k).mono (fun _ _ hnext => hnext)
        fun _ _ hsteps => hsteps.mono fun _ => Or.inl
  | fault p f =>
      rw [ends_bind]
      exact (steps_resolveFault k).mono (fun _ _ hnext => hnext) fun _ _ hnext => hnext
  | read p va length =>
      rw [ends_bind]
      exact (scene_userRead k).mono (fun _ _ => .of_eq) fun _ _ hfalse => hfalse.elim
  | write p va data =>
      rw [ends_bind]
      refine (scene_userWrite k).mono ?_ fun _ _ hfalse => hfalse.elim
      intro result next hstep
      refine .single (.store p va (storedBytes va data result)) ?_ hstep
      cases result with
      | ok done => exact ⟨data.length, congrArg (Deed.store p va) data.take_length.symm⟩
      | error fault => exact ⟨_, rfl⟩
  | map p start length writable f offset =>
      rw [ends_bind]
      exact (steps_map k).mono (fun _ _ hnext => hnext) fun _ _ hnext => hnext
  | unmap p va =>
      rw [ends_bind]
      exact (steps_unmap k).mono (fun _ _ hnext => hnext) fun _ _ hfalse => hfalse.elim
  | fork s t =>
      rw [ends_bind]
      exact (steps_copy k).mono (fun _ _ hnext => hnext) fun _ _ hnext => hnext
  | teardown p =>
      rw [ends_bind]
      exact (steps_teardown k).mono (fun _ _ hnext => hnext.1) fun _ _ hfalse => hfalse.elim
  | classAt p va =>
      rw [ends_bind]
      exact (kept_classAt sameScene_oblivious p va m).mono (fun _ _ => hkept) fun _ _ => hkept
  | mappingAt p va =>
      rw [ends_bind]
      exact (kept_mappingAt sameScene_oblivious p va m).mono (fun _ _ => hkept) fun _ _ => hkept

/-! ## Runs -/

theorem Sound.steps_after? {op : Operation} {next : Machine} (k : m.Sound {} mem)
    (h : m.after? op = some next) : Scene.Steps (op.Permits m) m.scene next.scene :=
  of_after? (steps_perform op k) h

/-- A reachable machine was reached by deeds, from a scene without pages, mappings and movements. -/
theorem Reachable.steps (h : m.Reachable) :
    ∃ v, (v.sight = fun _ _ => .blank) ∧ (v.mappings = fun _ => .empty) ∧ v.movements = [] ∧
      Scene.Steps (fun _ => True) v m.scene := by
  refine (h.induction (P := fun m => (∃ mem, m.Sound {} mem) ∧ ∃ v,
    (v.sight = fun _ _ => .blank) ∧ (v.mappings = fun _ => .empty) ∧ v.movements = [] ∧
      Scene.Steps (fun _ => True) v m.scene) ?_ ?_).2
  · intro config hardware start hboot
    refine ⟨⟨fun _ _ => 0, boot_sound _ hboot⟩, start.scene, ?_⟩
    rcases boot_eq_initial hboot with ⟨layout, area, report, rfl, -⟩
    exact ⟨rfl, rfl, rfl, .refl _⟩
  · intro m op next hm hnext
    rcases hm with ⟨⟨mem, k⟩, v, hsight, hmappings, hmovements, hsteps⟩
    exact ⟨k.after? hnext, v, hsight, hmappings, hmovements,
      hsteps.trans ((k.steps_after? hnext).mono fun _ _ => trivial)⟩

end Machine
end DemandPaging
