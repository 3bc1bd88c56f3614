/-
**The dispatcher's configuration path, from the document to the tables.**

`APP_CONF_parse_file` and `ALLOCATOR_create_ressources`, one after the other, for any document, any
rings of the process and any value of `rte_eal_init`.

* `configuration_reaches_tables` — the tables hold the used entries of the document, in its order.
* `tablesBounded_iff` — when the tables keep to their `MAX_INTERFACES` cells.
* `startup_returns_iff` — when no null name is duplicated, compared or looked up.
* `coreFaithful_iff` — when the process runs on the core of its document.
-/

import CyberPlatform.Dispatcher.Bypass

namespace CyberPlatform.Dispatcher

open Foundation Json LList

section Startup

variable (c : JsonC) (rings : Rings) (ealInit : List (Option String) → Int)

/-- `main`, up to the loop of the packet router. -/
def startup (document : Document) (conf : AppConf) (ctx : DispatcherCtx) :
    Except Trap (Int × DispatcherCtx) := do
  let (err, conf) ← appConfParseFile c document conf
  if err ≠ 0 then return (-1, ctx)
  let (err, ctx) ← allocatorCreateRessources rings ealInit conf ctx
  if err ≠ 0 then return (-1, ctx)
  return (0, ctx)

/-! ### From the document to the tables -/

/-- The array of a section is one of the document's. -/
theorem sectionArray_fits {document : Json} (fits : document.Fits) {list : ConfList}
    {items : List Json} (found : sectionArray document list = some items) :
    (Json.array items).Fits := by
  unfold sectionArray at found
  obtain ⟨jsonInterfaces, inner, array⟩ := Option.bind_eq_some_iff.mp found
  obtain ⟨jsonApp, app, interfaces⟩ := Option.bind_eq_some_iff.mp inner
  exact ((fits.getEx app).getEx interfaces).arrayAt array

/-- **The configuration reaches the tables intact.** -/
theorem configuration_reaches_tables {document : Document} {conf₀ conf : AppConf}
    (few : ∀ list, usedCount (entries c document.root list) ≤ maxInterfaces)
    (parsed : appConfParseFile c document conf₀ = .ok (0, conf)) (ctx : DispatcherCtx) :
    ∃ arrays : ConfList → List Json,
      (∀ list, sectionArray document.root list = some (arrays list) ∧
        llCount list conf.store.links = (arrays list).length) ∧
      Lists confLists conf.store (fun list => (arrays list).map (decodeInterface c)) ∧
      ((∃ ctx', initAppCtx rings conf ctx = .ok (0, ctx')) ↔
        ∀ list, ∀ pIfConf ∈ (arrays list).map (decodeInterface c),
          pIfConf.used ≠ 0 → Resolved rings pIfConf) ∧
      ∀ ctx', initAppCtx rings conf ctx = .ok (0, ctx') → ∀ list,
        ctx'.table list = .ofList (stored rings ((arrays list).map (decodeInterface c))) := by
  obtain ⟨accepted, decoded⟩ := parsed_decoded c parsed
  choose arrays found using accepted.sectionArray
  have same : entries c document.root = fun list => (arrays list).map (decodeInterface c) := by
    funext list
    rw [entries, found, Option.getD_some]
  have lists := decoded.lists
  rw [same] at lists
  simp only [same] at few
  refine ⟨arrays, fun list => ⟨found list, ?_⟩, lists, ?_, ?_⟩
  · have short := (fits_array.mp (sectionArray_fits document.fits (found list))).1
    have count := lists.count (mem_confLists list) (by rwa [List.length_map])
    rwa [List.length_map] at count
  · constructor
    · rintro ⟨_, zero⟩
      exact (initAppCtx_succeeds rings lists zero).1
    · exact fun all => ⟨_, initAppCtx_of_found rings lists few all ctx⟩
  · intro ctx' zero list
    rw [(initAppCtx_succeeds rings lists zero).2.2, ctxOf_table, tableOf,
      if_pos (mem_confLists list)]

theorem configuration_reaches_tables_small :
    let rings : Rings := .strict fun name => if name = "ring_1" then some 7 else none
    ∃ conf ctx, appConfParseFile namesC smallDocument zeroConf = .ok (0, conf) ∧
      initAppCtx rings conf zeroCtx = .ok (0, ctx) ∧
      ctx.rxInterfaces = .ofList [
        { name := some "in", isEth := 1, qId := 2, bypassName := some "out" },
        { name := some "spare", isEth := 1 }] ∧
      ctx.appInterfaces = .ofList [{ name := some "app", pRing := some 7 }] := by
  intro rings
  have few : ∀ list, usedCount (entries namesC smallDocument.root list) ≤ maxInterfaces := by
    intro list
    cases list <;> decide
  obtain ⟨conf, parsed⟩ := smallDocument_parses
  obtain ⟨arrays, found, _, returns, tables⟩ :=
    configuration_reaches_tables namesC rings few parsed zeroCtx
  have rx := Option.some.inj (found .rx).1
  have tx := Option.some.inj (found .tx).1
  have app := Option.some.inj (found .app).1
  obtain ⟨ctx, ran⟩ := returns.mpr fun list => by
    cases list with
    | rx => rw [← rx]; decide
    | tx => rw [← tx]; decide
    | app => rw [← app]; decide
  refine ⟨conf, ctx, parsed, ran, (tables ctx ran .rx).trans ?_, (tables ctx ran .app).trans ?_⟩
  · rw [← rx]
    rfl
  · rw [← app]
    rfl

/-! ### The cells of the tables -/

/-- The shift of `_init_dpdk` is defined. -/
def ShiftDefined (document : Json) : Prop := coreIdOf c document < 64

instance (document : Json) : Decidable (ShiftDefined c document) :=
  inferInstanceAs (Decidable (_ < _))

/-- `rte_eal_init` fails for the arguments that `_init_dpdk` makes of a document. -/
def DpdkFails (document : Json) : Prop :=
  ealInit (dpdkArgv (some appName) (1 <<< coreIdOf c document)) < 0

instance (document : Json) : Decidable (DpdkFails c ealInit document) :=
  inferInstanceAs (Decidable (_ < _))

/-- The stages of `ALLOCATOR_create_ressources`. -/
theorem allocatorCreateRessources_eq {document : Json} {conf : AppConf}
    (decoded : Decoded c document conf) (ctx : DispatcherCtx) :
    allocatorCreateRessources rings ealInit conf ctx =
      if ¬ ShiftDefined c document then .error .undefinedShift
      else if DpdkFails c ealInit document then .ok (-1, ctx)
      else initAppCtx rings conf ctx >>= fun out =>
        if out.1 ≠ 0 then .ok (-1, out.2)
        else assignBypassInterfaces out.2 >>= fun out =>
          if out.1 ≠ 0 then .ok (-1, out.2) else .ok (0, out.2) := by
  unfold allocatorCreateRessources initDpdk shiftLeft
  rw [decoded.appName, decoded.coreId]
  by_cases defined : ShiftDefined c document
  · have below : coreIdOf c document < 64 := defined
    rw [if_neg (not_not.mpr defined), if_pos below, ok_bind, strdup, ok_bind]
    by_cases fails : DpdkFails c ealInit document
    · have refused : ealInit (dpdkArgv (some appName) (1 <<< coreIdOf c document)) < 0 := fails
      rw [if_pos fails, if_pos refused]
      rfl
    · have ready : ¬ ealInit (dpdkArgv (some appName) (1 <<< coreIdOf c document)) < 0 := fails
      rw [if_neg fails, if_neg ready]
      rfl
  · have beyond : ¬ coreIdOf c document < 64 := defined
    rw [if_pos defined, if_neg beyond]
    rfl

/-- The count of a context that is filled in. -/
theorem ctxOf_count (conf : AppConf) (contents : ConfList → List IfConf) (list : ConfList) :
    ((ctxOf rings conf contents confLists).table list).count = usedCount (contents list) := by
  rw [ctxOf_table, tableOf, if_pos (mem_confLists list), ← stored_length rings]
  rfl

/-- The counts do not change when bypass interfaces are assigned to the entries for receiving. -/
theorem ctxOf_withRx_count (conf : AppConf) (contents : ConfList → List IfConf) {rx : List IfT}
    (length : rx.length = (stored rings (contents .rx)).length) (list : ConfList) :
    (((ctxOf rings conf contents confLists).withRx rx).table list).count =
      usedCount (contents list) := by
  rw [← ctxOf_count rings conf contents list]
  cases list with
  | rx => exact congrArg Nat.cast length
  | tx => rfl
  | app => rfl

/-- **What `ALLOCATOR_create_ressources` does** with the configuration of a document. -/
theorem allocatorCreateRessources_cases {document : Json} {conf : AppConf}
    (decoded : Decoded c document conf) (ctx : DispatcherCtx) :
    let contents := entries c document
    let out := allocatorCreateRessources rings ealInit conf ctx
    (¬ ShiftDefined c document ∧ out = .error .undefinedShift) ∨
    (ShiftDefined c document ∧ DpdkFails c ealInit document ∧ out = .ok (-1, ctx)) ∨
    ShiftDefined c document ∧ ¬ DpdkFails c ealInit document ∧
      ((InitSafe rings contents ∧ (∀ list, ListFound rings (contents list)) ∧
          (∀ list, usedCount (contents list) ≤ maxInterfaces) ∧
          ((BypassSafe (stored rings (contents .rx)) (stored rings (contents .tx)) ∧
              ∃ ret ctx', out = .ok (ret, ctx') ∧ (ret = 0 ∨ ret = -1) ∧
                ∀ list, (ctx'.table list).count = usedCount (contents list)) ∨
            ¬ BypassSafe (stored rings (contents .rx)) (stored rings (contents .tx)) ∧
              out = .error .nullPointer)) ∨
        (InitSafe rings contents ∧ ¬ (∀ list, ListFound rings (contents list)) ∧
          ∃ ctx', out = .ok (-1, ctx') ∧ StoppedCtx rings contents ctx') ∨
        ¬ InitSafe rings contents ∧ ∃ trap, out = .error trap ∧
          (trap = .outOfBounds → ∃ list, maxInterfaces < usedCount (contents list))) := by
  intro contents out
  have start : out = _ := allocatorCreateRessources_eq c rings ealInit decoded ctx
  rw [start]
  by_cases defined : ShiftDefined c document
  case neg =>
    rw [if_pos defined]
    exact .inl ⟨defined, rfl⟩
  rw [if_neg (not_not.mpr defined)]
  by_cases fails : DpdkFails c ealInit document
  · rw [if_pos fails]
    exact .inr (.inl ⟨defined, fails, rfl⟩)
  rw [if_neg fails]
  refine .inr (.inr ⟨defined, fails, ?_⟩)
  rcases initAppCtx_cases rings decoded.lists ctx with ⟨safe, found, few, ran⟩ |
    ⟨safe, missing, ctx', ran, stopped⟩ | ⟨danger, trap, ran, full⟩
  · refine .inl ⟨safe, found, few, ?_⟩
    have room : ∀ list, (stored rings (contents list)).length ≤ maxInterfaces := fun list =>
      (stored_length rings _).trans_le (few list)
    rw [ran]
    rw [ok_bind, if_neg (not_not.mpr rfl)]
    rcases assignBypassInterfaces_cases (room .rx) (room .tx) (stored_clear rings)
      (ctxOf rings conf contents confLists) rfl rfl with
      ⟨named, _, assigned⟩ | ⟨named, _, rx', assigned, length⟩ | ⟨unnamed, assigned⟩
    · rw [assigned, ok_bind]
      exact .inl ⟨named, 0, _, rfl, .inl rfl,
        ctxOf_withRx_count rings conf contents (List.length_map _)⟩
    · rw [assigned, ok_bind]
      exact .inl ⟨named, -1, _, rfl, .inr rfl, ctxOf_withRx_count rings conf contents length⟩
    · rw [assigned]
      exact .inr ⟨unnamed, rfl⟩
  · rw [ran]
    exact .inr (.inl ⟨safe, missing, ctx', rfl, stopped⟩)
  · rw [ran]
    exact .inr (.inr ⟨danger, trap, rfl, full⟩)

/-- **The promise about the tables**, for what comes out of `ALLOCATOR_create_ressources`: no access
outside of the cells, counts in their range, and a list with too many used entries refused. Then no
other table holds anything but what its own list has put there: the whole context is as it was, or
the tables are filled up to the entry at which the allocator has stopped, and zero behind. -/
structure TablesBounded (contents : ConfList → List IfConf) (ctx₀ : DispatcherCtx)
    (out : Except Trap (Int × DispatcherCtx)) : Prop where
  inside : out ≠ .error .outOfBounds
  counts : ∀ ret ctx, out = .ok (ret, ctx) → ∀ list, CountInside (ctx.table list)
  refused : ∀ list, maxInterfaces < usedCount (contents list) →
    ∃ ctx, out = .ok (-1, ctx) ∧ (ctx = ctx₀ ∨ StoppedCtx rings contents ctx)

/-- A refusal keeps the promise if it leaves the context as it was, or stops in one of the lists. -/
theorem tablesBounded_of_refused {contents : ConfList → List IfConf} {ctx₀ ctx : DispatcherCtx}
    (start : ∀ list, CountInside (ctx₀.table list))
    (left : ctx = ctx₀ ∨ StoppedCtx rings contents ctx) :
    TablesBounded rings contents ctx₀ (.ok (-1, ctx)) where
  inside same := by cases same
  counts ret ctx' same list := by
    cases same
    rcases left with rfl | stopped
    · exact start list
    · exact stopped.countInside rings list
  refused _ _ := ⟨ctx, rfl, left⟩

/-- The tables of a process that starts are empty. -/
theorem zeroCtx_inside (list : ConfList) : CountInside (zeroCtx.table list) := by
  cases list <;> exact countInside_empty

/-- **The tables keep to their cells exactly when** no list has more than `MAX_INTERFACES` used
entries, or the process is refused before anything goes wrong: by dpdk, or by a ring that is not
found. -/
theorem tablesBounded_iff {document : Document} {conf₀ conf : AppConf}
    (parsed : appConfParseFile c document conf₀ = .ok (0, conf)) :
    TablesBounded rings (entries c document.root) zeroCtx
        (allocatorCreateRessources rings ealInit conf zeroCtx) ↔
      (∀ list, usedCount (entries c document.root list) ≤ maxInterfaces) ∨
      ShiftDefined c document.root ∧ (DpdkFails c ealInit document.root ∨
        InitSafe rings (entries c document.root) ∧
          ¬ ∀ list, ListFound rings (entries c document.root list)) := by
  obtain ⟨_, decoded⟩ := parsed_decoded c parsed
  have wrong : ∀ {trap : Trap}, (trap = .outOfBounds →
      ∃ list, maxInterfaces < usedCount (entries c document.root list)) →
      (TablesBounded rings (entries c document.root) zeroCtx (.error trap) ↔
        ∀ list, usedCount (entries c document.root list) ≤ maxInterfaces) := by
    intro trap full
    refine ⟨fun bounded list => ?_, fun few => ⟨fun same => ?_, fun _ _ same => ?_, ?_⟩⟩
    · by_contra many
      obtain ⟨ctx, same, _⟩ := bounded.refused list (Nat.not_le.mp many)
      cases same
    · obtain ⟨list, many⟩ := full (Except.error.inj same)
      exact absurd many (Nat.not_lt.mpr (few list))
    · cases same
    · exact fun list many => absurd many (Nat.not_lt.mpr (few list))
  rcases allocatorCreateRessources_cases c rings ealInit decoded zeroCtx with
    ⟨undefined, ran⟩ | ⟨defined, fails, ran⟩ |
    ⟨defined, works, ⟨safe, found, few, ⟨_, ret, ctx', ran, _, counts⟩ | ⟨_, ran⟩⟩ |
      ⟨safe, missing, ctx', ran, stopped⟩ | ⟨danger, trap, ran, full⟩⟩
  · rw [ran, wrong fun same => (by cases same)]
    exact ⟨.inl, fun cases => cases.resolve_right fun refused => undefined refused.1⟩
  · rw [ran]
    exact ⟨fun _ => .inr ⟨defined, .inl fails⟩,
      fun _ => tablesBounded_of_refused rings zeroCtx_inside (.inl rfl)⟩
  · rw [ran]
    refine ⟨fun _ => .inl few, fun _ => ⟨fun same => (by cases same), ?_, fun list many => ?_⟩⟩
    · intro ret' ctx'' same list
      cases same
      rw [CountInside, counts list]
      exact ⟨Int.natCast_nonneg _, Int.ofNat_le.mpr (few list)⟩
    · exact absurd many (Nat.not_lt.mpr (few list))
  · rw [ran, wrong fun same => (by cases same)]
    exact ⟨.inl, fun _ => few⟩
  · rw [ran]
    exact ⟨fun _ => .inr ⟨defined, .inr ⟨safe, missing⟩⟩,
      fun _ => tablesBounded_of_refused rings zeroCtx_inside (.inr stopped)⟩
  · rw [ran, wrong full]
    refine ⟨.inl, fun cases => cases.resolve_right ?_⟩
    rintro ⟨_, fails | ⟨safe, _⟩⟩
    · exact works fails
    · exact danger safe

theorem tablesBounded_small :
    let rings : Rings := .strict fun name => if name = "ring_1" then some 7 else none
    ∃ conf, appConfParseFile namesC smallDocument zeroConf = .ok (0, conf) ∧
      TablesBounded rings (entries namesC smallDocument.root) zeroCtx
        (allocatorCreateRessources rings (fun _ => 0) conf zeroCtx) := by
  intro rings
  obtain ⟨conf, parsed⟩ := smallDocument_parses
  refine ⟨conf, parsed, (tablesBounded_iff namesC rings (fun _ => 0) parsed).mpr ?_⟩
  refine .inl fun list => ?_
  cases list <;> decide

/-- Nine NICs to receive from. -/
def nineNics : Document where
  root := documentOf (["if1-rx", "if2-rx", "if3-rx", "if4-rx", "if5-rx", "if6-rx", "if7-rx",
    "if8-rx", "if9-rx"].map nicItem) [] []
  fits := by simp [documentOf, nicItem]

/-- The ninth of them is stored behind the cells of the rx table. -/
theorem tablesBounded_fails_nine :
    ∃ conf, appConfParseFile namesC nineNics zeroConf = .ok (0, conf) ∧
      allocatorCreateRessources .empty (fun _ => 0) conf zeroCtx = .error .outOfBounds ∧
      ¬ TablesBounded .empty (entries namesC nineNics.root) zeroCtx
        (allocatorCreateRessources .empty (fun _ => 0) conf zeroCtx) := by
  obtain ⟨conf, parsed⟩ : ∃ conf, appConfParseFile namesC nineNics zeroConf = .ok (0, conf) :=
    ⟨_, rfl⟩
  have filled : loop (storeIfInCtx .empty) (entries namesC nineNics.root .rx) (.ofList []) =
      .error .outOfBounds := rfl
  obtain ⟨_, decoded⟩ := parsed_decoded namesC parsed
  have visited : visit conf.store .rx (storeIfInCtx .empty) (.ofList []) =
      .error .outOfBounds := by
    rcases decoded.lists.visit_loop (mem_confLists .rx) (storeIfInCtx .empty)
      (.ofList []) with ⟨trap, ran, visited⟩ | ⟨_, ran, _⟩ | ⟨_, _, _, ran, _⟩
    · cases filled.symm.trans ran
      exact visited
    · cases filled.symm.trans ran
    · cases filled.symm.trans ran
  have outside : allocatorCreateRessources .empty (fun _ => 0) conf zeroCtx =
      .error .outOfBounds := by
    rw [allocatorCreateRessources_eq namesC .empty (fun _ => 0) decoded,
      if_neg (by decide), if_neg (by decide)]
    unfold initAppCtx confLists
    have first : initTable .empty conf .rx
        { zeroCtx with appName := conf.appName, coreId := conf.coreId } = .error .outOfBounds := by
      simp only [initTable, DispatcherCtx.table, zeroCtx, visited, error_bind]
    rw [loop_cons_error first]
    rfl
  exact ⟨conf, parsed, outside, fun bounded => bounded.inside outside⟩

/-! ### The names -/

/-- **When the allocator comes across no entry without a cell, without the name of its ring, or
without a name that is compared.** -/
def AllocatorSafe (document : Json) : Prop :=
  InitSafe rings (entries c document) ∧
    ((∀ list, ListFound rings (entries c document list)) →
      BypassSafe (stored rings (entries c document .rx)) (stored rings (entries c document .tx)))

theorem allocatorCreateRessources_returns_iff {document : Json} {conf : AppConf}
    (decoded : Decoded c document conf) (ctx : DispatcherCtx) :
    (∃ out, allocatorCreateRessources rings ealInit conf ctx = .ok out) ↔
      ShiftDefined c document ∧
        (¬ DpdkFails c ealInit document → AllocatorSafe c rings document) := by
  unfold AllocatorSafe
  rcases allocatorCreateRessources_cases c rings ealInit decoded ctx with
    ⟨undefined, ran⟩ | ⟨defined, fails, ran⟩ |
    ⟨defined, works, ⟨safe, found, _, ⟨named, _, _, ran, _⟩ | ⟨unnamed, ran⟩⟩ |
      ⟨safe, missing, _, ran, _⟩ | ⟨danger, trap, ran, _⟩⟩
  · refine ⟨fun ⟨_, returned⟩ => ?_, fun ⟨defined, _⟩ => absurd defined undefined⟩
    cases ran.symm.trans returned
  · exact ⟨fun _ => ⟨defined, fun works => absurd fails works⟩, fun _ => ⟨_, ran⟩⟩
  · exact ⟨fun _ => ⟨defined, fun _ => ⟨safe, fun _ => named⟩⟩, fun _ => ⟨_, ran⟩⟩
  · refine ⟨fun ⟨_, returned⟩ => ?_, fun ⟨_, all⟩ => absurd ((all works).2 found) unnamed⟩
    cases ran.symm.trans returned
  · exact ⟨fun _ => ⟨defined, fun _ => ⟨safe, fun found => absurd found missing⟩⟩,
      fun _ => ⟨_, ran⟩⟩
  · refine ⟨fun ⟨_, returned⟩ => ?_, fun ⟨_, all⟩ => absurd (all works).1 danger⟩
    cases ran.symm.trans returned

/-- When the start-up returns, in a process with the given rings. -/
theorem startup_ok_iff (document : Document) (conf : AppConf) (ctx : DispatcherCtx) :
    (∃ ret ctx', startup c rings ealInit document conf ctx = .ok (ret, ctx') ∧
        (ret = 0 ∨ ret = -1)) ↔
      ParseSafe document.root ∧
        (Accepted document.root → ShiftDefined c document.root ∧
          (¬ DpdkFails c ealInit document.root → AllocatorSafe c rings document.root)) := by
  have start : startup c rings ealInit document conf ctx =
      appConfParseFile c document conf >>= fun out =>
        if out.1 ≠ 0 then .ok (-1, ctx)
        else allocatorCreateRessources rings ealInit out.2 ctx >>= fun out =>
          if out.1 ≠ 0 then .ok (-1, out.2) else .ok (0, out.2) := rfl
  rw [start]
  rcases appConfParseFile_cases c document conf with ⟨accepted, safe, conf', ran, decoded⟩ |
    ⟨refused, safe, conf', ran⟩ | ⟨danger, trap, ran⟩
  · have returns := allocatorCreateRessources_returns_iff c rings ealInit decoded ctx
    rw [ran, ok_bind, if_neg (not_not.mpr rfl)]
    constructor
    · rintro ⟨ret, ctx', returned, _⟩
      obtain ⟨out, allocated, _⟩ := bind_eq_ok.mp returned
      exact ⟨safe, fun _ => returns.mp ⟨out, allocated⟩⟩
    · rintro ⟨_, fine⟩
      obtain ⟨⟨ret, ctx'⟩, allocated⟩ := returns.mpr (fine accepted)
      rw [allocated, ok_bind]
      by_cases zero : ret = 0
      · exact ⟨0, ctx', if_neg (not_not.mpr zero), .inl rfl⟩
      · exact ⟨-1, ctx', if_pos zero, .inr rfl⟩
  · rw [ran, ok_bind]
    exact ⟨fun _ => ⟨safe, fun accepted => absurd accepted refused⟩,
      fun _ => ⟨-1, ctx, rfl, .inr rfl⟩⟩
  · rw [ran]
    refine ⟨fun ⟨_, _, returned, _⟩ => ?_, fun ⟨safe, _⟩ => absurd safe danger⟩
    cases returned

/-- **The start-up returns exactly when** no name is null that the parser duplicates, and, in an
accepted document, the shift by the core is defined and, unless dpdk refuses, the allocator comes
across no entry that lacks what it needs. A null pointer that is duplicated, compared or looked up
does not return; the lookup of one counts as going wrong here in a process without rings as well. -/
theorem startup_returns_iff (lookup : String → Option Ring) (document : Document) (conf : AppConf)
    (ctx : DispatcherCtx) :
    (∃ ret ctx', startup c (.strict lookup) ealInit document conf ctx = .ok (ret, ctx') ∧
        (ret = 0 ∨ ret = -1)) ↔
      ParseSafe document.root ∧
        (Accepted document.root → ShiftDefined c document.root ∧
          (¬ DpdkFails c ealInit document.root →
            AllocatorSafe c (.strict lookup) document.root)) :=
  startup_ok_iff c (.strict lookup) ealInit document conf ctx

/-- An interface on a NIC, with a null `ring-name` as it is not relevant. -/
def nullRing : Document where
  root := documentOf [.object [("if-name", .string "if1-rx"), ("used", .boolean true),
    ("is-eth", .boolean true), ("port-id", .int 0), ("queue-id", .int 0), ("ring-name", .null)]]
    [nicItem "if1-tx"] []
  fits := by simp [documentOf, nicItem]

/-- The parser duplicates it. -/
theorem startup_fails_null_ring :
    let out := startup namesC (.strict fun _ => none) (fun _ => 0) nullRing zeroConf zeroCtx
    out = .error .nullPointer ∧ ¬ ∃ ret ctx', out = .ok (ret, ctx') ∧ (ret = 0 ∨ ret = -1) := by
  intro out
  have null : out = .error .nullPointer := rfl
  refine ⟨null, fun ⟨_, _, returned, _⟩ => ?_⟩
  cases null.symm.trans returned

/-! ### The core -/

/-- **The promise about the core**: the allocator refuses, or the mask behind `-c` is the bit of the
core that the document names. -/
def CoreFaithful (conf : AppConf) (ctx : DispatcherCtx) (core : Int) : Prop :=
  (∃ ctx', allocatorCreateRessources rings ealInit conf ctx = .ok (-1, ctx')) ∨
    ∃ mask, shiftLeft 1 conf.coreId = .ok mask ∧
      ∃ k : Nat, core = k ∧ coreMaskOf (dpdkArgv conf.appName mask) = some (2 ^ k)

/-- **The process runs on the core of its document exactly when** that is one of the 64 cores that a
mask has. -/
theorem coreFaithful_iff {document : Document} {conf₀ conf : AppConf}
    (parsed : appConfParseFile c document conf₀ = .ok (0, conf)) (ctx : DispatcherCtx) :
    ∃ jsonApp core, document.root.getEx "app" = some jsonApp ∧
      jsonApp.getEx "core-id" = some (.int core) ∧
      (CoreFaithful rings ealInit conf ctx core ↔ 0 ≤ core ∧ core < 64) := by
  obtain ⟨accepted, decoded⟩ := parsed_decoded c parsed
  obtain ⟨jsonInterfaces, ⟨jsonApp, app, ⟨_, core, written⟩, _⟩, _⟩ := accepted
  refine ⟨jsonApp, core, app, written, ?_⟩
  have stored : conf.coreId = .ofInt (saturate core) := by
    rw [decoded.coreId, coreIdOf, app, Option.elim_some, intAt, written, Option.elim_some]
    rfl
  -- one of the cores of a mask, and then the shift is by the number of the document
  have range : conf.coreId.toNat < 64 ↔ 0 ≤ core ∧ core < 64 := by
    have value := toNat_ofInt_saturate core
    rw [← stored] at value
    split_ifs at value <;> omega
  constructor
  · rintro (⟨ctx', refused⟩ | ⟨mask, shifted, _⟩)
    · rw [allocatorCreateRessources_eq c rings ealInit decoded] at refused
      by_cases defined : ShiftDefined c document.root
      · have below : coreIdOf c document.root < 64 := defined
        rw [← decoded.coreId] at below
        exact range.mp (UInt64.lt_iff_toNat_lt.mp below)
      · rw [if_pos defined] at refused
        cases refused
    · exact range.mp (shiftLeft_one shifted).1
  · intro inside
    have below : conf.coreId < 64 := UInt64.lt_iff_toNat_lt.mpr (range.mpr inside)
    have shifted : shiftLeft 1 conf.coreId = .ok (1 <<< conf.coreId) := if_pos below
    have same : core = conf.coreId.toNat := by
      have value := toNat_ofInt_saturate core
      rw [← stored, if_neg (by omega)] at value
      omega
    refine .inr ⟨_, shifted, _, same, ?_⟩
    rw [decoded.appName, dpdkArgv, coreMaskOf_hexText (by decide), (shiftLeft_one shifted).2]

theorem coreFaithful_small :
    ∃ conf jsonApp core, appConfParseFile namesC smallDocument zeroConf = .ok (0, conf) ∧
      smallDocument.root.getEx "app" = some jsonApp ∧
      jsonApp.getEx "core-id" = some (.int core) ∧
      (CoreFaithful .empty (fun _ => 0) conf zeroCtx core ↔ 0 ≤ core ∧ core < 64) := by
  obtain ⟨conf, parsed⟩ := smallDocument_parses
  obtain ⟨jsonApp, core, found⟩ := coreFaithful_iff namesC .empty (fun _ => 0) parsed zeroCtx
  exact ⟨conf, jsonApp, core, parsed, found⟩

/-- A dispatcher for the core 64, without interfaces. -/
def coreBeyond : Document where
  root := .object [("app", .object [("name", .string "dispatcher"), ("core-id", .int 64),
    ("interfaces", .object [("rx-interfaces", .array []), ("tx-interfaces", .array []),
      ("app-interfaces", .array [])])])]
  fits := by simp

/-- No mask has a bit for it, and the shift is undefined. -/
theorem coreFaithful_fails_beyond :
    ∃ conf, appConfParseFile namesC coreBeyond zeroConf = .ok (0, conf) ∧
      allocatorCreateRessources .empty (fun _ => 0) conf zeroCtx = .error .undefinedShift ∧
      ¬ CoreFaithful .empty (fun _ => 0) conf zeroCtx 64 := by
  refine ⟨_, rfl, rfl, ?_⟩
  rintro (⟨_, refused⟩ | ⟨_, shifted, _⟩)
  · cases refused
  · cases shifted

end Startup

end CyberPlatform.Dispatcher
