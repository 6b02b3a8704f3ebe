import DemandPaging.Proofs.Scene.Groups

/-!
# File mappings and the pages of a call

The pages that one call made are taken away together: whichever of them an unmap is asked for, it
takes all of them that are left, and no others. The exception are pages that were left when another
mapping with the same base took the place of theirs: they are in no mapping any more.
-/

namespace DemandPaging
namespace Machine

open Routine

variable {m next : Machine} {mem : FlatMemory} {p : Nat} {va : Vaddr}

def baseAt (m : Machine) (p : Nat) (va : Vaddr) : Option Vaddr :=
  (m.page? p va).bind Page.mapping

theorem scene_link (m : Machine) : m.scene.link = m.baseAt := rfl

/-! ## Operations -/

theorem relinks_quiet {op : Operation} (k : m.Sound {} mem)
    (hquiet : ∀ deed, op.Permits m deed → deed.KeepsLinks) :
    Ends op.perform m Anyhow
      (fun _ next => next.scene.link = m.scene.link ∧ next.scene.mappings = m.scene.mappings)
      fun _ next => next.scene.link = m.scene.link ∧ next.scene.mappings = m.scene.mappings := by
  have hsame : ∀ {next : Machine}, Scene.Steps (op.Permits m) m.scene next.scene →
      next.scene.link = m.scene.link ∧ next.scene.mappings = m.scene.mappings :=
    fun hsteps => ⟨hsteps.link_eq hquiet, hsteps.mappings_eq fun _ _ hdeed => hquiet _ hdeed⟩
  exact (steps_perform op k).mono (fun _ _ => hsame) fun _ _ => hsame

theorem sameLinks_of_eq (h : next.scene = m.scene) :
    next.scene.link = m.scene.link ∧ next.scene.mappings = m.scene.mappings := by
  rw [h]
  exact ⟨rfl, rfl⟩

theorem Cleared.loses {places : Vaddr → Prop} {groups : AddressMap FileMapping}
    (h : m.Cleared (fun q wa => q = p ∧ places wa) next)
    (hmappings : next.scene.mappings = (m.scene.grouped p groups).mappings) :
    m.scene.Loses p places groups next.scene where
  gone := by
    intro wa hwa
    rw [scene_link, baseAt, h.gone p wa ⟨rfl, hwa⟩]
    rfl
  kept := by
    intro q wa hout
    rw [scene_link, scene_link, baseAt, h.kept q wa hout]
    rfl
  mappings := hmappings

theorem Cleared.loses_all (h : m.Cleared (fun q _ => q = p) next)
    (hmappings : next.scene.mappings = (m.scene.grouped p .empty).mappings) :
    m.scene.Loses p (fun _ => True) .empty next.scene := by
  have hcleared : m.Cleared (fun q _ => q = p ∧ True) next :=
    h.congr fun q wa => Iff.of_eq (and_true (q = p))
  exact hcleared.loses hmappings

theorem AlikeBut.baseAt {places : Nat → Vaddr → Prop} (h : m.AlikeBut places next)
    (hva : ¬places p va) : next.baseAt p va = m.baseAt p va := by
  have hsame := congrArg (Option.bind · Page.mapping) (h.pages p va hva)
  rw [Option.bind_map, Option.bind_map] at hsame
  exact hsame

theorem relinks_removePage (k : m.Sound {} mem) :
    Ends (removePage p va) m Anyhow
      (fun _ next => (Operation.remove p va).Relinks m.scene next.scene)
      fun _ next => (Operation.remove p va).Mislinks m.scene next.scene := by
  refine ((ends_removePage k).and (steps_removePage k)).mono ?_ ?_
  · intro _ next hnext
    rcases hnext with ⟨⟨hcleared, -⟩, page, hpage, hscene⟩
    have hbase : m.scene.link p (m.pageBase va) = page.mapping := by
      rw [scene_link, baseAt, hpage]
      rfl
    refine ⟨m.pageBase va, hcleared.loses ?_⟩
    rw [hscene, Scene.released_mappings, hbase, (k.placed p _ page hpage).address]
    rfl
  · intro _ next hnext
    exact sameLinks_of_eq hnext.2.2

theorem relinks_mapFile {f : Nat} {start : Vaddr} {length offset : UInt64} {writable : Bool}
    (k : m.Sound {} mem) :
    Ends (mapFile p start length writable f offset) m Anyhow
      (fun _ next =>
        (Operation.map p start length writable f offset).Relinks m.scene next.scene)
      fun _ next =>
        (Operation.map p start length writable f offset).Mislinks m.scene next.scene := by
  refine (steps_mapFile k).mono ?_ ?_
  · intro _ next hnext
    rcases hnext with ⟨-, -, count, v, hcount, -, -, hpopulated, -, hscene⟩
    have hmember : ∀ {wa}, wa ∈ m.layout.pagesFrom start count ↔
        ∃ i, i < count ∧ m.layout.pageAt start i = wa := by
      intro wa
      unfold Layout.pagesFrom
      rw [List.mem_map]
      constructor
      · rintro ⟨i, hi, rfl⟩
        exact ⟨i, List.mem_range.mp hi, rfl⟩
      · rintro ⟨i, hi, rfl⟩
        exact ⟨i, List.mem_range.mpr hi, rfl⟩
    have hlink : next.scene.link = v.link := by
      rw [hscene]
      rfl
    refine ⟨m.layout.pagesFrom start count, ?_⟩
    constructor
    · exact List.ne_nil_of_mem (hmember.mpr ⟨0, hcount, rfl⟩)
    · refine (List.nodup_map_iff_inj_on List.nodup_range).mpr ?_
      intro i hi j hj
      exact hpopulated.apart i j (Nat.zero_le i) (List.mem_range.mp hi) (Nat.zero_le j)
        (List.mem_range.mp hj)
    · intro wa hwa
      rcases hmember.mp hwa with ⟨i, hi, rfl⟩
      exact congrArg Sight.page (hpopulated.free i (Nat.zero_le i) hi)
    · intro wa hwa
      rcases hmember.mp hwa with ⟨i, hi, rfl⟩
      rcases hpopulated.added i (Nat.zero_le i) hi with ⟨page, hgood, hsight⟩
      rw [hlink, Scene.link, hsight]
      exact hgood.link
    · intro q wa hout
      rw [hlink, Scene.link, Scene.link, hpopulated.others q wa]
      intro i _ hi hat
      exact hout ⟨hat.1, hmember.mpr ⟨i, hi, hat.2.symm⟩⟩
    · rw [hscene, Scene.grouped, hpopulated.beside]
      rfl
  · intro _ next hnext
    exact sameLinks_of_eq hnext

theorem relinks_unmapFile (k : m.Sound {} mem) :
    Ends (unmapFile p va) m Anyhow
      (fun _ next => (Operation.unmap p va).Relinks m.scene next.scene)
      fun _ _ => False := by
  refine (steps_unmapFile k).mono ?_ fun _ _ hfalse => hfalse
  intro _ next hnext
  rcases hnext with ⟨-, hscene⟩ | ⟨base, mapping, -, hget, hcleared, -, hmappings⟩
  · exact Or.inl (sameLinks_of_eq hscene)
  · exact Or.inr ⟨base, mapping, hget, hcleared.loses hmappings⟩

theorem relinks_fork {s t : Nat} (k : m.Sound {} mem) :
    Ends (fork s t) m Anyhow
      (fun _ next => (Operation.fork s t).Relinks m.scene next.scene)
      fun _ next => (Operation.fork s t).Mislinks m.scene next.scene := by
  have hkeys : ∀ {wa}, wa ∈ (m.process s).pages.keys ↔
      (m.scene.sight s wa).page.isSome = true := by
    intro wa
    rw [AddressMap.mem_keys_iff, Option.isSome_iff_exists]
    rfl
  refine ((ends_fork k trivial).and (steps_fork k)).mono ?_ ?_
  · intro _ next hnext
    rcases hnext with ⟨⟨-, hfree, -⟩, v, hturns, hscene⟩
    have hlink : next.scene.link = v.link := by
      rw [hscene]
      rfl
    constructor
    · exact hfree
    · intro wa hwa
      rw [hlink]
      exact hturns.link.1 wa (hkeys.mpr hwa)
    · intro q wa hout
      rw [hlink]
      exact hturns.link.2 q wa fun hin => hout ⟨hin.1, hkeys.mp hin.2⟩
    · rw [hscene, Scene.grouped, hturns.steps.mappings_eq_of_copying]
      rfl
  · intro _ next hnext
    rcases hnext with ⟨⟨hcopied, -⟩, hbroken⟩
    constructor
    · intro q wa hq
      exact hcopied.alike.baseAt fun hin => hq hin.1
    · intro wa b hwa
      refine (hcopied.alike.baseAt ?_).trans hwa
      rintro ⟨-, hnone⟩
      rw [scene_link, baseAt, hnone] at hwa
      contradiction
    · exact hbroken.steps.mappings_eq_of_copying

theorem relinks_perform (op : Operation) (k : m.Sound {} mem) :
    Ends op.perform m Anyhow (fun _ next => op.Relinks m.scene next.scene)
      fun _ next => op.Mislinks m.scene next.scene := by
  cases op with
  | start accepting =>
      refine relinks_quiet k ?_
      rintro _ rfl
      trivial
  | finish p =>
      unfold Operation.perform
      rw [ends_bind]
      refine ((ends_endProcess k).and (steps_endProcess k)).mono ?_ fun _ _ hfalse => hfalse.1.elim
      intro _ next hnext
      exact hnext.1.1.loses_all hnext.2.2
  | allocate p type va writable loader =>
      refine relinks_quiet k ?_
      rintro _ ⟨origin, -, rfl⟩
      rfl
  | remove p va =>
      unfold Operation.perform
      rw [ends_bind]
      exact relinks_removePage k
  | claim p va => exact relinks_quiet k fun _ => Deed.Claiming.keepsLinks
  | fault p f =>
      refine relinks_quiet k ?_
      rintro _ (hdeed | ⟨page, -, hnew, rfl | rfl | rfl⟩)
      · exact hdeed.keepsLinks
      · exact hnew.2.1
      · trivial
      · exact hnew.2.1
  | read p va length => exact relinks_quiet k fun _ hdeed => hdeed.elim
  | write p va data =>
      refine relinks_quiet k ?_
      rintro _ ⟨count, rfl⟩
      trivial
  | map p start length writable f offset =>
      unfold Operation.perform
      rw [ends_bind]
      exact relinks_mapFile k
  | unmap p va =>
      unfold Operation.perform
      rw [ends_bind]
      exact (relinks_unmapFile k).mono (fun _ _ hnext => hnext) fun _ _ hfalse => hfalse.elim
  | fork s t =>
      unfold Operation.perform
      rw [ends_bind]
      exact relinks_fork k
  | teardown p =>
      unfold Operation.perform
      rw [ends_bind]
      refine ((ends_teardown k).and (steps_teardown k)).mono ?_ fun _ _ hfalse => hfalse.1.elim
      intro _ next hnext
      exact hnext.1.1.loses_all hnext.2.2
  | classAt p va => exact relinks_quiet k fun _ hdeed => hdeed.elim
  | mappingAt p va => exact relinks_quiet k fun _ hdeed => hdeed.elim

end Machine

/-! ## Runs -/

def MappingCalls.along (c : MappingCalls) (m : Machine) : List Operation → MappingCalls
  | [] => c
  | op :: rest =>
      match op.perform m with
      | .ok _ next => (c.served m.scene op).along next rest
      | .error (.failed _) next => (c.refused op).along next rest
      | .error (.aborted _) _ => c

namespace Machine

open Routine

variable {m last : Machine} {mem : FlatMemory} {c : MappingCalls} {p : Nat} {a va b : Vaddr}

theorem Sound.grouped_along {ops : List Operation} (k : m.Sound {} mem) (h : m.scene.Grouped c)
    (hrun : m.run ops = some last) :
    (∃ mem', last.Sound {} mem') ∧ last.scene.Grouped (c.along m ops) := by
  induction ops generalizing m mem c with
  | nil =>
      cases hrun
      exact ⟨⟨mem, k⟩, h⟩
  | cons op rest ih =>
      have hends := (ends_perform op k).and (relinks_perform op k)
      unfold Ends at hends
      rw [run, Machine.after?] at hrun
      rw [MappingCalls.along]
      rcases hperform : op.perform m with ⟨reply, next⟩ | ⟨⟨e⟩ | ⟨reason⟩, next⟩
      · rw [hperform] at hends hrun
        rcases hends with ⟨⟨mem', knext, -⟩, hrelinks⟩
        exact ih knext (h.served hrelinks) hrun
      · rw [hperform] at hends hrun
        rcases hends with ⟨⟨mem', knext, -⟩, hmislinks⟩
        exact ih knext (h.refused hmislinks) hrun
      · rw [hperform] at hrun
        contradiction

theorem grouped_of_run {config : Config} {hardware : Hardware} {start : Machine}
    {ops : List Operation} (hboot : boot config hardware = .ok start)
    (hrun : start.run ops = some m) :
    (∃ mem, m.Sound {} mem) ∧ m.scene.Grouped (MappingCalls.blank.along start ops) := by
  have hblank : start.scene.Grouped .blank := by
    rcases boot_eq_initial hboot with ⟨layout, area, report, rfl, -⟩
    exact .blank rfl rfl
  exact (boot_sound (fun _ _ => 0) hboot).grouped_along hblank hrun

theorem Reachable.lists {g : FileMapping} (h : m.Reachable)
    (hget : (m.process p).mappings.get? b = some g) : g.Lists b (m.baseAt p) := by
  rcases h with ⟨config, hardware, start, ops, hboot, hrun⟩
  exact (grouped_of_run hboot hrun).2.lists p b g hget

/-- An unmap takes the pages of the mapping that lists the page that it is asked for. These are the
ones with the same base whose mapping was not replaced. -/
theorem Sound.unmap_takes (k : m.Sound {} mem) (h : m.scene.Grouped c) (hvoid : c.void p = false)
    (hbase : m.baseAt p (m.pageBase a) = some b) (hkept : c.replaced p (m.pageBase a) = false) :
    ∃ next, (Operation.unmap p a).perform m = .ok .done next ∧
      ∀ q wa, next.page? q wa =
        if q = p ∧ m.baseAt p wa = some b ∧ c.replaced p wa = false then none
        else m.page? q wa := by
  have hends : Ends (Operation.unmap p a).perform m (fun _ => False)
      (fun reply next => reply = .done ∧ ∀ q wa, next.page? q wa =
        if q = p ∧ m.baseAt p wa = some b ∧ c.replaced p wa = false then none
        else m.page? q wa)
      fun _ _ => False := by
    unfold Operation.perform
    rw [ends_bind]
    refine ((ends_unmapFile k).and (steps_unmapFile k)).mono ?_ fun _ _ hfalse => hfalse.2
    intro _ next hnext
    refine ⟨rfl, ?_⟩
    rcases hnext.2 with ⟨hnone, -⟩ | ⟨base, mapping, hfound, hmapping, hcleared, -⟩
    · exact absurd (hnone b hbase) (h.get?_ne_none hvoid hbase hkept)
    · cases hbase.symm.trans hfound
      have hlists := h.lists p b mapping hmapping
      have hmember : ∀ wa, wa ∈ mapping.members ↔
          m.baseAt p wa = some b ∧ c.replaced p wa = false := by
        intro wa
        constructor
        · intro hin
          exact ⟨hlists.linked wa hin, h.current p b mapping wa hvoid hmapping hin⟩
        · rintro ⟨hwa, hkept'⟩
          rcases h.listed p wa b hvoid hwa hkept' with ⟨g', hget', hin⟩
          cases hmapping.symm.trans hget'
          exact hin
      intro q wa
      split
      · rename_i hin
        exact hcleared.gone q wa ⟨hin.1, (hmember wa).mpr hin.2⟩
      · rename_i hout
        exact hcleared.kept q wa fun hin => hout ⟨hin.1, (hmember wa).mp hin.2⟩
  rcases hends.exists_result with ⟨reply, next, hperform, rfl, hpages⟩
  exact ⟨next, hperform, hpages⟩

theorem baseAt_of_callAt {wa : Vaddr} (h : m.scene.Grouped c) (hvoid : c.void p = false)
    (hbase : m.baseAt p va = some b)
    (hcall : c.callAt m.scene p wa = c.callAt m.scene p va) : m.baseAt p wa = some b := by
  unfold MappingCalls.callAt at hcall
  rw [scene_link, hbase] at hcall
  rcases Option.map_eq_some_iff.mp hcall with ⟨b', hbase', hmaker⟩
  have hsame : c.maker p wa = c.maker p va := hmaker
  rw [hbase', ← (h.made p wa b' hvoid hbase').2, hsame, (h.made p va b hvoid hbase).2]

theorem callAt_eq_iff {wa : Vaddr} (h : m.scene.Grouped c) (hvoid : c.void p = false)
    (hbase : m.baseAt p va = some b) (hkept : c.replaced p va = false)
    (hkept' : c.replaced p wa = false) :
    c.callAt m.scene p wa = c.callAt m.scene p va ↔ m.baseAt p wa = some b := by
  refine ⟨baseAt_of_callAt h hvoid hbase, ?_⟩
  intro hwa
  unfold MappingCalls.callAt
  rw [scene_link, hbase, hwa, Option.map_some, h.together p wa va b hvoid hwa hbase hkept' hkept]
  rfl

/-- File mappings list pages that say so. A page is listed unless another mapping with the same base
took the place of its own, and an unmap at any of its addresses takes the pages that its call made
and that are left, and no others, except pages whose mapping was replaced. -/
theorem mapping_groups_kept {config : Config} {hardware : Hardware} {start : Machine}
    {ops : List Operation} (hboot : boot config hardware = .ok start)
    (hrun : start.run ops = some m) :
    let calls := MappingCalls.blank.along start ops
    (∀ p b g, (m.process p).mappings.get? b = some g → g.Lists b (m.baseAt p)) ∧
      ∀ p a b, calls.void p = false → m.baseAt p (m.pageBase a) = some b →
        calls.replaced p (m.pageBase a) = false →
        (∃ g, (m.process p).mappings.get? b = some g ∧ m.pageBase a ∈ g.members) ∧
          ∃ next, (Operation.unmap p a).perform m = .ok .done next ∧
            (∀ q wa, next.page? q wa =
              if q = p ∧ calls.callAt m.scene p wa = calls.callAt m.scene p (m.pageBase a) ∧
                calls.replaced p wa = false
              then none else m.page? q wa) ∧
            ((∀ wa, m.baseAt p wa = some b → calls.replaced p wa = false) → ∀ q wa,
              next.page? q wa =
                if q = p ∧ calls.callAt m.scene p wa = calls.callAt m.scene p (m.pageBase a)
                then none else m.page? q wa) := by
  rcases grouped_of_run hboot hrun with ⟨⟨mem, k⟩, hgrouped⟩
  generalize MappingCalls.blank.along start ops = calls at *
  refine ⟨hgrouped.lists, ?_⟩
  intro p a b hvoid hbase hkept
  refine ⟨hgrouped.listed p _ b hvoid hbase hkept, ?_⟩
  rcases k.unmap_takes hgrouped hvoid hbase hkept with ⟨next, hnext, hpages⟩
  have htaken : ∀ q wa, next.page? q wa =
      if q = p ∧ calls.callAt m.scene p wa = calls.callAt m.scene p (m.pageBase a) ∧
        calls.replaced p wa = false
      then none else m.page? q wa := by
    intro q wa
    have hiff : m.baseAt p wa = some b ∧ calls.replaced p wa = false ↔
        calls.callAt m.scene p wa = calls.callAt m.scene p (m.pageBase a) ∧
          calls.replaced p wa = false :=
      and_congr_left fun hkept' => (callAt_eq_iff hgrouped hvoid hbase hkept hkept').symm
    rw [hpages q wa]
    simp only [hiff]
  refine ⟨next, hnext, htaken, ?_⟩
  intro hall q wa
  have hiff : calls.callAt m.scene p wa = calls.callAt m.scene p (m.pageBase a) ∧
      calls.replaced p wa = false ↔
      calls.callAt m.scene p wa = calls.callAt m.scene p (m.pageBase a) :=
    and_iff_left_of_imp fun hcall => hall wa (baseAt_of_callAt hgrouped hvoid hbase hcall)
  rw [htaken q wa]
  simp only [hiff]

def partsOfMapping : List Operation :=
  [.start (.always true), .start (.always true), .map 0 0x2000 48 true 0 0, .remove 0 0x2010,
    .fork 0 1]

theorem unmap_in_copy : ∃ start m next : Machine,
    boot smallConfig (smallHardware none [.patterned 64]) = .ok start ∧
    start.run partsOfMapping = some m ∧
    (Operation.unmap 1 0x2025).perform m = .ok .done next ∧
    (∀ q wa, next.page? q wa =
      if q = 1 ∧ (MappingCalls.blank.along start partsOfMapping).callAt m.scene 1 wa = some 0
      then none else m.page? q wa) ∧
    [0x2000, 0x2010, 0x2020].map
      ((MappingCalls.blank.along start partsOfMapping).callAt m.scene 1) =
        [some 0, none, some 0] := by
  rcases exists_run smallConfig (smallHardware none [.patterned 64]) partsOfMapping
    (fun start m => !(MappingCalls.blank.along start partsOfMapping).void 1 &&
      (m.process 1).pages.keys.all (fun wa =>
        !(MappingCalls.blank.along start partsOfMapping).replaced 1 wa) &&
      decide (m.pageBase 0x2025 = 0x2020) && decide (m.baseAt 1 0x2020 = some 0x2000) &&
      decide ([0x2000, 0x2010, 0x2020].map
        ((MappingCalls.blank.along start partsOfMapping).callAt m.scene 1) =
          [some 0, none, some 0])) (by decide +kernel) with ⟨start, m, hboot, hrun, hcheck⟩
  simp only [Bool.and_eq_true, Bool.not_eq_true', decide_eq_true_eq] at hcheck
  rcases hcheck with ⟨⟨⟨⟨hvoid, hpages⟩, haddress⟩, hbase⟩, hcalls⟩
  have hkept : ∀ wa, m.baseAt 1 wa = some 0x2000 →
      (MappingCalls.blank.along start partsOfMapping).replaced 1 wa = false := by
    intro wa hwa
    rcases Option.bind_eq_some_iff.mp hwa with ⟨page, hpage, -⟩
    have hkey : wa ∈ (m.process 1).pages.keys := AddressMap.mem_keys_iff.mpr ⟨page, hpage⟩
    have hclear := List.all_eq_true.mp hpages wa hkey
    rwa [Bool.not_eq_true'] at hclear
  have hlast : (MappingCalls.blank.along start partsOfMapping).callAt m.scene 1 0x2020 = some 0 :=
    (List.cons.inj (List.cons.inj (List.cons.inj hcalls).2).2).1
  have htaken := (mapping_groups_kept hboot hrun).2 1 0x2025 0x2000 hvoid
  rw [haddress, hlast] at htaken
  rcases (htaken hbase (hkept 0x2020 hbase)).2 with ⟨next, hnext, -, htaken⟩
  exact ⟨start, m, next, hboot, hrun, hnext, htaken hkept, hcalls⟩

/-- A new mapping takes the place of one whose first page was removed. The second page says that it
belongs to it, but it is not listed. -/
theorem not_always_listed : ¬∀ (m : Machine) p va b, m.Reachable → m.baseAt p va = some b →
    ∃ g, (m.process p).mappings.get? b = some g ∧ va ∈ g.members := by
  intro hall
  have hrun := Reachable.of_run smallConfig (smallHardware none [.patterned 64])
    [.start (.always true), .map 0 0x2000 32 true 0 0, .remove 0 0x2000, .map 0 0x2000 16 true 0 0]
    (fun m => decide (m.baseAt 0 0x2010 = some 0x2000) &&
      decide (((m.process 0).mappings.get? 0x2000).map FileMapping.members = some [0x2000]))
    (by decide +kernel)
  rcases hrun with ⟨m, hm, hcheck⟩
  rw [Bool.and_eq_true, decide_eq_true_eq, decide_eq_true_eq] at hcheck
  rcases hall m 0 0x2010 0x2000 hm hcheck.1 with ⟨g, hget, hin⟩
  rw [hget] at hcheck
  have hmembers : g.members = [0x2000] := Option.some.inj hcheck.2
  rw [hmembers] at hin
  exact absurd hin (by decide)

end Machine
end DemandPaging
