/-
**From the document to `rte_eal_init`.**

* `parsed_loads`, `Loaded.holds` — what a parsed document leaves for the allocator.
* `maskFaithful_iff` — when `app_manager` runs on the cores of its document.
-/

import CyberPlatform.AppManager.Steps

namespace CyberPlatform.AppManager

open Foundation Json LList

section Startup

variable (c : JsonC)

/-! ### The configuration of a document -/

/-- A parse that succeeds has loaded its document. -/
theorem parsed_loads {document : Document} {conf₀ conf : AppConf}
    (parsed : appConfParseFile c document conf₀ = .ok (0, conf)) :
    ∃ jsonApp jsonRessources, document.root.getEx "app" = some jsonApp ∧ Identified jsonApp ∧
      jsonApp.getEx "ressources" = some jsonRessources ∧ RessourcesOk jsonRessources ∧
      Loaded c jsonApp jsonRessources conf := by
  have empty : Lists confLists (initConf conf₀).store fun _ => [] :=
    Lists.init conf₀.store confLists
  rcases call_eq_ok parsed (fun _ => rfl) with refused | ⟨conf', ran, same⟩
  · exact absurd refused (by decide)
  · cases same
    rcases jsonParse_loads c document empty ran with ⟨_, loaded⟩ | refused
    · exact loaded
    · exact absurd refused (by decide)

/-- **What is loaded is what the allocator reads.** -/
theorem Loaded.holds {jsonApp jsonRessources : Json} {conf : AppConf}
    (loaded : Loaded c jsonApp jsonRessources conf) :
    Holds conf ((entriesAt jsonRessources "pktpools").map (decodePktpool c))
      ((entriesAt jsonRessources "rings").map (decodeRing c))
      ((entriesAt jsonRessources "ethports").map (decodeEthport c)) where
  named := loaded.appName ▸ Option.some_ne_none _
  lists := by
    obtain ⟨contents, lists, pools, ports, rings⟩ := loaded.lists
    exact ⟨contents, lists, pools, rings, ports⟩
  poolCount := by rw [loaded.counts.1, List.length_map]
  ringCount := by rw [loaded.counts.2.2, List.length_map]
  portCount := by rw [loaded.counts.2.1, List.length_map]
  counted := List.forall_mem_map.mpr fun _ _ => ⟨rfl, rfl⟩

/-! ### The cores -/

/-- **The promise about the cores**: a mask that a 64-bit integer can hold is the one behind `-c`,
and any other integer stands for no cores at all. -/
structure MaskFaithful (argv : List (Option String)) (mask : Int) : Prop where
  exactly : 0 < mask → mask < 2 ^ 63 → coreMaskOf argv = some mask.toNat
  noOther : mask < 0 ∨ 2 ^ 63 ≤ mask → ∀ cores : Nat, coreMaskOf argv = some cores → cores ≠ 0 →
    (cores : Int) = mask

/-- **`app_manager` runs on the cores of its document exactly when** their mask has no bit beyond
the 31 that an `int` leaves for them. -/
theorem maskFaithful_iff {document : Document} {conf₀ conf : AppConf}
    (parsed : appConfParseFile c document conf₀ = .ok (0, conf)) :
    ∃ jsonApp mask argv, document.root.getEx "app" = some jsonApp ∧
      jsonApp.getEx "core-mask" = some (.int mask) ∧
      (∀ dpdk run, ∃ ret, initDpdk dpdk conf run = .ok (ret, run.log (.ealInit argv)
        (.code (dpdk.returned run.trace (.ealInit argv))))) ∧
      (MaskFaithful argv mask ↔ 0 ≤ mask ∧ mask < 2 ^ 31) := by
  obtain ⟨jsonApp, jsonRessources, app, known, _, _, loaded⟩ := parsed_loads c parsed
  obtain ⟨mask, written⟩ := known.coreMask
  refine ⟨jsonApp, mask, dpdkArgv (some appName) conf, app, written, fun dpdk run => ?_, ?_⟩
  · rw [initDpdk_eq dpdk loaded.appName, loop_doStep_single, doStep, checked]
    split_ifs
    · exact ⟨-1, rfl⟩
    · exact ⟨0, rfl⟩
  have stored : conf.coreMask = .ofInt (saturate mask) := by
    rw [loaded.coreMask, intAt, written, Option.elim_some]
    rfl
  have value := toNat_ofInt_saturate mask
  rw [← stored] at value
  have reached : coreMaskOf (dpdkArgv (some appName) conf) = some conf.coreMask.toNat :=
    coreMaskOf_hexText (by decide) _ _
  constructor
  · rintro ⟨exactly, noOther⟩
    rw [reached] at exactly noOther
    by_cases negative : mask < 0
    · rw [if_pos negative] at value
      have same := noOther (.inl negative) _ rfl (by omega)
      omega
    · rw [if_neg negative] at value
      refine ⟨by omega, ?_⟩
      by_contra large
      by_cases beyond : 2 ^ 63 ≤ mask
      · have same := noOther (.inr beyond) _ rfl (by omega)
        omega
      · have same := Option.some.inj (exactly (by omega) (by omega))
        omega
  · rintro ⟨low, high⟩
    rw [if_neg (by omega)] at value
    refine ⟨fun _ _ => ?_, fun outside => ?_⟩
    · rw [reached, show conf.coreMask.toNat = mask.toNat by omega]
    · omega

theorem maskFaithful_one :
    ∃ conf jsonApp mask argv, appConfParseFile namesC onePort usedConf = .ok (0, conf) ∧
      onePort.root.getEx "app" = some jsonApp ∧ jsonApp.getEx "core-mask" = some (.int mask) ∧
      (MaskFaithful argv mask ↔ 0 ≤ mask ∧ mask < 2 ^ 31) := by
  obtain ⟨conf, parsed⟩ := onePort_parses
  obtain ⟨jsonApp, mask, argv, app, written, _, faithful⟩ := maskFaithful_iff namesC parsed
  exact ⟨conf, jsonApp, mask, argv, parsed, app, written, faithful⟩

/-- An `app_manager` for the core 31, with nothing to allocate. -/
def coreBeyond : Document where
  root := .object [("app", .object [("name", .string "app_manager"), ("core-mask", .int 0x80000000),
    ("memory-socket", .int 1), ("ressources", .object [])])]
  fits := by simp

/-- It runs on the 31 cores below instead. -/
theorem maskFaithful_fails_beyond :
    ∃ conf, appConfParseFile namesC coreBeyond usedConf = .ok (0, conf) ∧
      coreMaskOf (dpdkArgv conf.appName conf) = some 0x7fffffff ∧
      ¬ MaskFaithful (dpdkArgv conf.appName conf) 0x80000000 := by
  have reached : ∀ conf : AppConf, conf.appName = some appName → conf.coreMask = 0x7fffffff →
      coreMaskOf (dpdkArgv conf.appName conf) = some 0x7fffffff := by
    intro conf named mask
    rw [named, dpdkArgv, coreMaskOf_hexText (by decide), mask]
    rfl
  refine ⟨_, rfl, reached _ rfl rfl, fun faithful => ?_⟩
  have exactly := faithful.exactly (by decide) (by decide)
  rw [reached _ rfl rfl] at exactly
  cases exactly

end Startup

end CyberPlatform.AppManager
