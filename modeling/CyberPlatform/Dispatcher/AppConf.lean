/-
**`dispatcher/app_conf.c`: from a document to the three interface lists.**

The element of an interface and the `if_conf_t` that it points to are one structure of the list
store. `INFO_LOG` is a `do … while(0)`, so the `continue` that is given to it for a missing key
leaves that `do … while(0)` only, and the `&& ret` of every branch behind it makes up for that:
nothing is stored.

* `jsonParseInterface_eq` — one section adds what its entries stand for, if no name in them is null.
* `appConfParseFile_cases` — what a document leaves behind, when it is refused, and when the parser
  goes wrong.
-/

import CyberPlatform.Common.Json
import CyberPlatform.Common.LList.Store

namespace CyberPlatform.Dispatcher

open Foundation Json LList

/-! ### The code -/

/-- `if_conf_t`; the defaults are what `memset` leaves. -/
structure IfConf where
  name : Option String := none
  bypassIfName : Option String := none
  used : Int := 0
  isEth : Int := 0
  portId : Int := 0
  qId : Int := 0
  ringName : Option String := none
  deriving DecidableEq, Repr

/-- The list headers of `app_conf_t`. -/
inductive ConfList where
  | rx | tx | app
  deriving DecidableEq, Repr

def confLists : List ConfList := [.rx, .tx, .app]

theorem mem_confLists (list : ConfList) : list ∈ confLists := by cases list <;> decide

/-- `app_conf_t`, and the memory of its lists. -/
structure AppConf where
  appName : Option String
  coreId : UInt64
  store : Store ConfList fun _ => IfConf

/-- `APP_NAME` -/
def appName : String := "dispatcher"

/-- `_init_conf` -/
def initConf (pConf : AppConf) : AppConf :=
  let links := llInit .rx pConf.store.links
  let links := llInit .tx links
  let links := llInit .app links
  { appName := none, coreId := 0, store := { pConf.store with links := links } }

section Parser

variable (c : JsonC)

/-- `_parse_json_app` -/
def parseJsonApp (jobj : Json) (conf : AppConf) : Except Trap (Int × AppConf) := do
  -- check app name
  match jobj.getEx "name" with
  | none => return (-1, conf)
  | some jsonAppName =>
  if jsonAppName.getType ≠ .string then return (-1, conf)
  if (← strcmp (some appName) (getString c jsonAppName)) ≠ 0 then return (-1, conf)
  let conf := { conf with appName := ← strdup (some appName) }
  -- get core id
  match jobj.getEx "core-id" with
  | none => return (-1, conf)
  | some jsonCoreId =>
  if jsonCoreId.getType ≠ .int then return (-1, conf)
  return (0, { conf with coreId := .ofInt (getInt c jsonCoreId) })

/-- The array `if_items`. -/
def ifItems : List String :=
  ["used", "is-eth", "if-name", "port-id", "queue-id", "ring-name", "bypass-if-name"]

/-- The body of the loop over `if_items`. -/
def parseItem (jsonItem : Json) (pInterface : IfConf) (item : String) : Except Trap IfConf :=
  match jsonItem.getEx item with
  | none => return pInterface
  | some jsonObj => do
    if item = "if-name" then
      return { pInterface with name := ← strdup (getString c jsonObj) }
    else if item = "is-eth" then
      return { pInterface with isEth := getBoolean jsonObj }
    else if item = "used" then
      return { pInterface with used := getBoolean jsonObj }
    else if item = "port-id" then
      return { pInterface with portId := getInt c jsonObj }
    else if item = "queue-id" then
      return { pInterface with qId := getInt c jsonObj }
    else if item = "ring-name" then
      return { pInterface with ringName := ← strdup (getString c jsonObj) }
    else if item = "bypass-if-name" then
      return { pInterface with bypassIfName := ← strdup (getString c jsonObj) }
    else return pInterface

/-- The body of the loop of `_json_parse_interface`. -/
def parseInterface (list : ConfList) (jsonItem : Json) (conf : AppConf) :
    Except Trap (Int × AppConf) := do
  let pElem := conf.store.fresh
  let store := conf.store.alloc.write list pElem {}
  let pInterface ← ifItems.foldlM (parseItem c jsonItem) (store.payload list pElem)
  return (0, { conf with store := (store.write list pElem pInterface).link list pElem })

/-- `_json_parse_interface` -/
def jsonParseInterface (jsonArray : Json) (list : ConfList) (conf : AppConf) :
    Except Trap (Int × AppConf) :=
  if jsonArray.getType ≠ .array then .ok (-1, conf)
  else loop (parseInterface c list) jsonArray.arrayItems conf

/-- The key and the list of each of the three sections. -/
def sections : List (String × ConfList) :=
  [("rx-interfaces", .rx), ("tx-interfaces", .tx), ("app-interfaces", .app)]

/-- One of the three blocks of `_json_parse` that get and parse a section. -/
def parseSection (jsonInterfaces : Json) (block : String × ConfList) (conf : AppConf) :
    Except Trap (Int × AppConf) := do
  match jsonInterfaces.getEx block.1 with
  | none => return (-1, conf)
  | some jsonIf =>
  let (ret, conf) ← jsonParseInterface c jsonIf block.2 conf
  if ret ≠ 0 then return (-1, conf)
  return (0, conf)

/-- `_json_parse`, of what `json_tokener_parse` returns for the buffer. -/
def jsonParse (jobj : Json) (conf : AppConf) : Except Trap (Int × AppConf) := do
  if jobj.getType = .null then return (-1, conf)
  match jobj.getEx "app" with
  | none => return (-1, conf)
  | some jsonApp =>
  let (ret, conf) ← parseJsonApp c jsonApp conf
  if ret ≠ 0 then return (-1, conf)
  match jsonApp.getEx "interfaces" with
  | none => return (-1, conf)
  | some jsonInterfaces =>
  -- the three blocks one after the other, each with a `goto error`
  loop (parseSection c jsonInterfaces) sections conf

/-- `APP_CONF_parse_file` of a file that can be read, with `_parse_elements`. -/
def appConfParseFile (document : Document) (conf : AppConf) : Except Trap (Int × AppConf) := do
  let conf := initConf conf
  let (err, conf) ← jsonParse c document.root conf
  if err ≠ 0 then return (-1, conf)
  return (0, conf)

/-! ### One entry -/

/-- The keys whose values are duplicated as strings. -/
def nameItems : List String := ["if-name", "ring-name", "bypass-if-name"]

/-- No name of an entry is null (it may be missing). -/
def NamesSet (jsonItem : Json) : Prop := ∀ item ∈ nameItems, ¬ jsonItem.nullAt item

instance (jsonItem : Json) : Decidable (NamesSet jsonItem) :=
  inferInstanceAs (Decidable (∀ item ∈ nameItems, ¬ jsonItem.nullAt item))

/-- **What an entry stands for**: the accessor of each key, 0 or null where the key is missing. -/
def decodeInterface (jsonItem : Json) : IfConf where
  name := stringAt c jsonItem "if-name"
  bypassIfName := stringAt c jsonItem "bypass-if-name"
  used := booleanAt jsonItem "used"
  isEth := booleanAt jsonItem "is-eth"
  portId := intAt c jsonItem "port-id"
  qId := intAt c jsonItem "queue-id"
  ringName := stringAt c jsonItem "ring-name"

section Items

variable (jsonItem : Json) (p : IfConf)

theorem parseItem_used : parseItem c jsonItem p "used" =
    .ok { p with used := (jsonItem.getEx "used").elim p.used getBoolean } := by
  unfold parseItem
  cases jsonItem.getEx "used" <;> rfl

theorem parseItem_isEth : parseItem c jsonItem p "is-eth" =
    .ok { p with isEth := (jsonItem.getEx "is-eth").elim p.isEth getBoolean } := by
  unfold parseItem
  cases jsonItem.getEx "is-eth" <;> rfl

theorem parseItem_portId : parseItem c jsonItem p "port-id" =
    .ok { p with portId := (jsonItem.getEx "port-id").elim p.portId (getInt c) } := by
  unfold parseItem
  cases jsonItem.getEx "port-id" <;> rfl

theorem parseItem_qId : parseItem c jsonItem p "queue-id" =
    .ok { p with qId := (jsonItem.getEx "queue-id").elim p.qId (getInt c) } := by
  unfold parseItem
  cases jsonItem.getEx "queue-id" <;> rfl

theorem parseItem_name : parseItem c jsonItem p "if-name" =
    if jsonItem.nullAt "if-name" then .error .nullPointer
    else .ok { p with name := (jsonItem.getEx "if-name").elim p.name (getString c) } :=
  strdup_under c jsonItem "if-name" p.name fun name =>
    ({ p with name := name } : IfConf)

theorem parseItem_ringName : parseItem c jsonItem p "ring-name" =
    if jsonItem.nullAt "ring-name" then .error .nullPointer
    else .ok { p with ringName := (jsonItem.getEx "ring-name").elim p.ringName (getString c) } :=
  strdup_under c jsonItem "ring-name" p.ringName fun name =>
    ({ p with ringName := name } : IfConf)

theorem parseItem_bypassIfName : parseItem c jsonItem p "bypass-if-name" =
    if jsonItem.nullAt "bypass-if-name" then .error .nullPointer
    else .ok { p with
      bypassIfName := (jsonItem.getEx "bypass-if-name").elim p.bypassIfName (getString c) } :=
  strdup_under c jsonItem "bypass-if-name" p.bypassIfName fun name =>
    ({ p with bypassIfName := name } : IfConf)

/-- **The loop over the keys** decodes the entry, if no name in it is null. -/
theorem parseItems_eq :
    ifItems.foldlM (parseItem c jsonItem) {} =
      if NamesSet jsonItem then .ok (decodeInterface c jsonItem) else .error .nullPointer := by
  have names : NamesSet jsonItem ↔ jsonItem.nullAt "if-name" = false ∧
      jsonItem.nullAt "ring-name" = false ∧ jsonItem.nullAt "bypass-if-name" = false := by
    simp [NamesSet, nameItems]
  simp only [ifItems, List.foldlM_cons, List.foldlM_nil, parseItem_used, parseItem_isEth,
    parseItem_name, parseItem_portId, parseItem_qId, parseItem_ringName, parseItem_bypassIfName,
    ok_bind, names]
  cases jsonItem.nullAt "if-name" with
  | true => rfl
  | false =>
    cases jsonItem.nullAt "ring-name" with
    | true => rfl
    | false => cases jsonItem.nullAt "bypass-if-name" <;> rfl

end Items

/-! ### A section -/

/-- A new interface at the end of a list. -/
def AppConf.push (conf : AppConf) (list : ConfList) (pInterface : IfConf) : AppConf :=
  { conf with store := conf.store.push list pInterface }

theorem parseInterface_eq (list : ConfList) (jsonItem : Json) (conf : AppConf) :
    parseInterface c list jsonItem conf =
      if NamesSet jsonItem then .ok (0, conf.push list (decodeInterface c jsonItem))
      else .error .nullPointer := by
  have cleared : (conf.store.alloc.write list conf.store.fresh {}).payload list conf.store.fresh =
      ({} : IfConf) := Store.write_self _ _ _ _
  unfold parseInterface
  simp only [cleared, parseItems_eq]
  by_cases names : NamesSet jsonItem
  · rw [if_pos names, if_pos names, ok_bind, Store.write_write]
    rfl
  · rw [if_neg names, if_neg names]
    rfl

/-- **A section** adds what its entries stand for, if no name in them is null. -/
theorem jsonParseInterface_eq {items : List Json} (fits : (array items).Fits) (list : ConfList)
    (conf : AppConf) :
    jsonParseInterface c (array items) list conf =
      if ∀ item ∈ items, NamesSet item then
        .ok (0, (items.map (decodeInterface c)).foldl (·.push list ·) conf)
      else .error .nullPointer := by
  have isArray : ¬ (array items).getType ≠ .array := not_not.mpr rfl
  unfold jsonParseInterface
  rw [if_neg isArray, arrayItems_eq fits]
  exact loop_decode (fun item conf => parseInterface_eq c list item conf) items conf

/-- **One block of `_json_parse`**: it is left where there is no array, and adds the entries of an
array. -/
theorem parseSection_cases {jsonInterfaces : Json} (fits : jsonInterfaces.Fits)
    (block : String × ConfList) (conf : AppConf) :
    (jsonInterfaces.arrayAt block.1 = none ∧
      parseSection c jsonInterfaces block conf = .ok (-1, conf)) ∨
    ∃ items, jsonInterfaces.arrayAt block.1 = some items ∧
      parseSection c jsonInterfaces block conf =
        if ∀ item ∈ items, NamesSet item then
          .ok (0, (items.map (decodeInterface c)).foldl (·.push block.2 ·) conf)
        else .error .nullPointer := by
  unfold parseSection arrayAt
  cases found : jsonInterfaces.getEx block.1 with
  | none => exact .inl ⟨rfl, rfl⟩
  | some jsonIf =>
    cases jsonIf with
    | array items =>
      refine .inr ⟨items, rfl, ?_⟩
      show (jsonParseInterface c (array items) block.2 conf >>= fun out =>
        if out.1 ≠ 0 then .ok (-1, out.2) else .ok (0, out.2)) = _
      rw [jsonParseInterface_eq c (fits.getEx found)]
      split_ifs <;> rfl
    | _ => exact .inl ⟨rfl, rfl⟩

/-! ### The whole document -/

/-- The application is the dispatcher, with a core. -/
def Identified (jsonApp : Json) : Prop :=
  (∃ name, jsonApp.getEx "name" = some (string name) ∧ cstr name = appName) ∧
    ∃ id, jsonApp.getEx "core-id" = some (int id)

/-- `_parse_json_app` does not go wrong, and accepts exactly the dispatcher. -/
theorem parseJsonApp_cases (jsonApp : Json) (conf : AppConf) :
    (Identified jsonApp ∧ parseJsonApp c jsonApp conf = .ok (0, { conf with
      appName := some appName, coreId := .ofInt (intAt c jsonApp "core-id") })) ∨
    ¬ Identified jsonApp ∧ ∃ conf', parseJsonApp c jsonApp conf = .ok (-1, conf') := by
  unfold parseJsonApp Identified intAt
  cases named : jsonApp.getEx "name" with
  | none =>
    refine .inr ⟨?_, conf, rfl⟩
    rintro ⟨⟨_, found, _⟩, _⟩
    cases found
  | some jsonAppName =>
    cases jsonAppName with
    | string name =>
      obtain ⟨order, compared, zero⟩ := strcmp_eq_zero appName (cstr name)
      have isString : ¬ (string name).getType ≠ .string := not_not.mpr rfl
      simp only [if_neg isString, getString, compared, ok_bind]
      by_cases same : appName = cstr name
      · rw [if_neg (not_not.mpr (zero.mpr same))]
        cases core : jsonApp.getEx "core-id" with
        | none =>
          refine .inr ⟨?_, _, rfl⟩
          rintro ⟨_, _, found⟩
          cases found
        | some jsonCoreId =>
          cases jsonCoreId with
          | int id => exact .inl ⟨⟨⟨name, rfl, same.symm⟩, id, rfl⟩, rfl⟩
          | _ =>
            refine .inr ⟨?_, _, rfl⟩
            rintro ⟨_, _, found⟩
            cases found
      · rw [if_pos fun equal => same (zero.mp equal)]
        refine .inr ⟨?_, conf, rfl⟩
        rintro ⟨⟨_, found, equal⟩, _⟩
        cases found
        exact same equal.symm
    | _ =>
      refine .inr ⟨?_, conf, rfl⟩
      rintro ⟨⟨_, found, _⟩, _⟩
      cases found

/-- The interfaces of a document of the dispatcher. -/
def Interfaces (document jsonInterfaces : Json) : Prop :=
  ∃ jsonApp, document.getEx "app" = some jsonApp ∧ Identified jsonApp ∧
    jsonApp.getEx "interfaces" = some jsonInterfaces

/-- Every section is an array in a document of the dispatcher. -/
def Accepted (document : Json) : Prop :=
  ∃ jsonInterfaces, Interfaces document jsonInterfaces ∧
    ∀ block ∈ sections, jsonInterfaces.arrayAt block.1 ≠ none

/-- No name is null in the sections, up to the first one that is not an array. -/
def SectionsSafe (jsonInterfaces : Json) : Prop :=
  Guarded (fun _ block => jsonInterfaces.arrayAt block.1 ≠ none)
    (fun _ block => ∀ items, jsonInterfaces.arrayAt block.1 = some items →
      ∀ item ∈ items, NamesSet item) [] sections

/-- No name is null in a document, as far as it is looked at. -/
def ParseSafe (document : Json) : Prop :=
  ∀ jsonInterfaces, Interfaces document jsonInterfaces → SectionsSafe jsonInterfaces

/-- The array of a section. -/
def sectionArray (document : Json) (list : ConfList) : Option (List Json) :=
  let key := match list with
    | .rx => "rx-interfaces"
    | .tx => "tx-interfaces"
    | .app => "app-interfaces"
  ((document.getEx "app").bind (·.getEx "interfaces")).bind (·.arrayAt key)

/-- **What the entries of a section stand for**, in the order of the array. -/
def entries (document : Json) (list : ConfList) : List IfConf :=
  ((sectionArray document list).getD []).map (decodeInterface c)

/-- The core of a document. -/
def coreIdOf (document : Json) : UInt64 :=
  .ofInt ((document.getEx "app").elim 0 (intAt c · "core-id"))

/-- **What an accepted document leaves behind.** -/
structure Decoded (document : Json) (conf : AppConf) : Prop where
  lists : Lists confLists conf.store (entries c document)
  appName : conf.appName = some Dispatcher.appName
  coreId : conf.coreId = coreIdOf c document

/-- Every section of an accepted document has an array. -/
theorem Accepted.sectionArray {document : Json} (accepted : Accepted document) (list : ConfList) :
    ∃ items, sectionArray document list = some items := by
  obtain ⟨i, ⟨jsonApp, app, _, interfaces⟩, arrays⟩ := accepted
  unfold Dispatcher.sectionArray
  rw [app, Option.bind_some, interfaces, Option.bind_some]
  cases list with
  | rx => exact Option.ne_none_iff_exists'.mp (arrays ("rx-interfaces", .rx) (by decide))
  | tx => exact Option.ne_none_iff_exists'.mp (arrays ("tx-interfaces", .tx) (by decide))
  | app => exact Option.ne_none_iff_exists'.mp (arrays ("app-interfaces", .app) (by decide))

/-- What the blocks that are done have added. -/
def addSections (jsonInterfaces : Json) (done : List (String × ConfList)) (conf : AppConf) :
    AppConf :=
  done.foldl (fun conf block =>
    (((jsonInterfaces.arrayAt block.1).getD []).map (decodeInterface c)).foldl
      (·.push block.2 ·) conf) conf

/-- **The three blocks.** -/
theorem sections_cases {jsonInterfaces : Json} (fits : jsonInterfaces.Fits) (conf : AppConf) :
    (SectionsSafe jsonInterfaces ∧ (∀ block ∈ sections, jsonInterfaces.arrayAt block.1 ≠ none) ∧
      loop (parseSection c jsonInterfaces) sections conf =
        .ok (0, addSections c jsonInterfaces sections conf)) ∨
    (SectionsSafe jsonInterfaces ∧ ¬ (∀ block ∈ sections, jsonInterfaces.arrayAt block.1 ≠ none) ∧
      ∃ conf', loop (parseSection c jsonInterfaces) sections conf = .ok (-1, conf')) ∨
    ¬ SectionsSafe jsonInterfaces ∧
      ∃ trap, loop (parseSection c jsonInterfaces) sections conf = .error trap := by
  have ways := loop_guarded (fun _ block => jsonInterfaces.arrayAt block.1 ≠ none)
    (fun _ block => ∀ items, jsonInterfaces.arrayAt block.1 = some items →
      ∀ item ∈ items, NamesSet item) (parseSection c jsonInterfaces)
    (R := fun done st => st = addSections c jsonInterfaces done conf)
    (Q := fun ret _ => ret = -1) (T := fun _ => True) ?_ sections [] rfl (show conf = _ from rfl)
  · rw [passes_iff] at ways
    rcases ways with ⟨safe, all, conf', ran, rfl⟩ | ⟨safe, some, ret, conf', ran, _, rfl⟩ | wrong
    · exact .inl ⟨safe, all, ran⟩
    · exact .inr (.inl ⟨safe, some, conf', ran⟩)
    · exact .inr (.inr ⟨wrong.1, wrong.2.imp fun _ ran => ran.1⟩)
  · rintro done block _ _ _ rfl
    rcases parseSection_cases c fits block (addSections c jsonInterfaces done conf) with
      ⟨missing, ran⟩ | ⟨items, found, ran⟩
    · refine .inr (.inl ⟨fun items found => ?_, not_not.mpr missing, -1, _, ran, by decide, rfl⟩)
      rw [missing] at found
      cases found
    · rw [ran]
      by_cases names : ∀ item ∈ items, NamesSet item
      · rw [if_pos names]
        have there : jsonInterfaces.arrayAt block.1 ≠ none := found ▸ Option.some_ne_none items
        refine .inl ⟨fun items' found' => ?_, there, _, rfl, ?_⟩
        · cases found.symm.trans found'
          exact names
        · rw [addSections, addSections, List.foldl_append, List.foldl_cons, List.foldl_nil, found,
            Option.getD_some]
      · rw [if_neg names]
        exact .inr (.inr ⟨fun safe => names (safe items found), _, rfl, trivial⟩)

/-- The blocks leave the application alone. -/
theorem addSections_app (jsonInterfaces : Json) (done : List (String × ConfList)) (conf : AppConf) :
    (addSections c jsonInterfaces done conf).appName = conf.appName ∧
      (addSections c jsonInterfaces done conf).coreId = conf.coreId := by
  refine foldl_keeps (P := fun v : AppConf => v.appName = conf.appName ∧ v.coreId = conf.coreId)
    (fun v block same => ?_) done ⟨rfl, rfl⟩
  refine foldl_keeps (P := fun v : AppConf => v.appName = conf.appName ∧ v.coreId = conf.coreId)
    (fun v _ same => ?_) _ same
  exact same

theorem pushAll_store (list : ConfList) (interfaces : List IfConf) (conf : AppConf) :
    (interfaces.foldl (·.push list ·) conf).store =
      interfaces.foldl (fun st p => st.push list p) conf.store := by
  induction interfaces generalizing conf with
  | nil => rfl
  | cons interface interfaces ih => exact ih _

/-- **The three blocks fill the three lists.** -/
theorem addSections_lists {document jsonApp jsonInterfaces : Json}
    (app : document.getEx "app" = some jsonApp)
    (interfaces : jsonApp.getEx "interfaces" = some jsonInterfaces) {conf : AppConf}
    (empty : Lists confLists conf.store fun _ => []) :
    Lists confLists (addSections c jsonInterfaces sections conf).store (entries c document) := by
  let decoded := fun key => ((jsonInterfaces.arrayAt key).getD []).map (decodeInterface c)
  have rx := empty.pushAll (mem_confLists .rx) (decoded "rx-interfaces")
  have tx := rx.pushAll (mem_confLists .tx) (decoded "tx-interfaces")
  have all := tx.pushAll (mem_confLists .app) (decoded "app-interfaces")
  rw [← pushAll_store, ← pushAll_store, ← pushAll_store] at all
  refine Eq.mp (congrArg (Lists confLists _) ?_) all
  funext list
  cases list <;> simp [decoded, entries, sectionArray, app, interfaces]

theorem Interfaces.unique {document i j : Json} (first : Interfaces document i)
    (second : Interfaces document j) : i = j := by
  obtain ⟨a, app, _, found⟩ := first
  obtain ⟨b, app', _, found'⟩ := second
  obtain rfl := Option.some.inj (app.symm.trans app')
  exact Option.some.inj (found.symm.trans found')

/-- A document with an application is an object, and decided by the application. -/
theorem jsonParse_app {document jsonApp : Json} (app : document.getEx "app" = some jsonApp)
    (conf : AppConf) :
    jsonParse c document conf = parseJsonApp c jsonApp conf >>= fun out =>
      if out.1 ≠ 0 then .ok (-1, out.2)
      else match jsonApp.getEx "interfaces" with
        | none => .ok (-1, out.2)
        | some jsonInterfaces => loop (parseSection c jsonInterfaces) sections out.2 := by
  have isObject : document.getType ≠ .null := by
    intro isNull
    cases document <;> cases isNull
    cases app
  unfold jsonParse
  rw [if_neg isObject, app]
  rfl

/-- A document without interfaces is refused. -/
theorem jsonParse_refuses {document : Json} (none : ∀ i, ¬ Interfaces document i)
    (conf : AppConf) : ∃ conf', jsonParse c document conf = .ok (-1, conf') := by
  cases app : document.getEx "app" with
  | none =>
    refine ⟨conf, ?_⟩
    unfold jsonParse
    rw [app, ite_self]
    rfl
  | some jsonApp =>
    rw [jsonParse_app c app]
    rcases parseJsonApp_cases c jsonApp conf with ⟨known, ran⟩ | ⟨_, conf', ran⟩
    · rw [ran]
      cases found : jsonApp.getEx "interfaces" with
      | none => exact ⟨_, rfl⟩
      | some i => exact absurd ⟨jsonApp, app, known, found⟩ (none i)
    · rw [ran]
      exact ⟨conf', rfl⟩

/-- **What `_json_parse` makes of a document**, from empty lists: it fills them with what an
accepted document stands for, refuses any other, and goes wrong when it comes across a null name. -/
theorem jsonParse_cases (document : Document) {conf : AppConf}
    (empty : Lists confLists conf.store fun _ => []) :
    (Accepted document.root ∧ ParseSafe document.root ∧
      ∃ conf', jsonParse c document.root conf = .ok (0, conf') ∧ Decoded c document.root conf') ∨
    (¬ Accepted document.root ∧ ParseSafe document.root ∧
      ∃ conf', jsonParse c document.root conf = .ok (-1, conf')) ∨
    ¬ ParseSafe document.root ∧ ∃ trap, jsonParse c document.root conf = .error trap := by
  by_cases some : ∃ i, Interfaces document.root i
  · obtain ⟨i, interfaces⟩ := some
    have accepted : Accepted document.root ↔ ∀ block ∈ sections, i.arrayAt block.1 ≠ none :=
      ⟨fun ⟨_, other, arrays⟩ => other.unique interfaces ▸ arrays,
        fun arrays => ⟨i, interfaces, arrays⟩⟩
    have safe : ParseSafe document.root ↔ SectionsSafe i :=
      ⟨fun all => all i interfaces, fun one _ other => interfaces.unique other ▸ one⟩
    rw [accepted, safe]
    obtain ⟨jsonApp, app, known, found⟩ := interfaces
    rcases parseJsonApp_cases c jsonApp conf with ⟨_, ran⟩ | ⟨unknown, _⟩
    · rw [jsonParse_app c app, ran, ok_bind, found]
      rcases sections_cases c ((document.fits.getEx app).getEx found)
          { conf with appName := some appName, coreId := .ofInt (intAt c jsonApp "core-id") } with
        ⟨fine, all, done⟩ | ⟨fine, missing, conf', done⟩ | ⟨wrong, trap, done⟩
      · refine .inl ⟨all, fine, _, done, addSections_lists c app found empty, ?_, ?_⟩
        · rw [(addSections_app c i sections _).1]
        · rw [(addSections_app c i sections _).2, coreIdOf, app, Option.elim_some]
      · exact .inr (.inl ⟨missing, fine, conf', done⟩)
      · exact .inr (.inr ⟨wrong, trap, done⟩)
    · exact absurd known unknown
  · have none : ∀ i, ¬ Interfaces document.root i := fun i found => some ⟨i, found⟩
    refine .inr (.inl ⟨fun ⟨i, found, _⟩ => none i found, fun i found => absurd found (none i), ?_⟩)
    exact jsonParse_refuses c none conf

/-- **What `APP_CONF_parse_file` makes of a document**, whatever the memory held. -/
theorem appConfParseFile_cases (document : Document) (conf : AppConf) :
    (Accepted document.root ∧ ParseSafe document.root ∧
      ∃ conf', appConfParseFile c document conf = .ok (0, conf') ∧
        Decoded c document.root conf') ∨
    (¬ Accepted document.root ∧ ParseSafe document.root ∧
      ∃ conf', appConfParseFile c document conf = .ok (-1, conf')) ∨
    ¬ ParseSafe document.root ∧ ∃ trap, appConfParseFile c document conf = .error trap := by
  have start : appConfParseFile c document conf =
      jsonParse c document.root (initConf conf) >>= fun out =>
        if out.1 ≠ 0 then .ok (-1, out.2) else .ok (0, out.2) := rfl
  have empty : Lists confLists (initConf conf).store fun _ => [] :=
    Lists.init conf.store confLists
  rw [start]
  rcases jsonParse_cases c document empty with
    ⟨accepted, safe, conf', ran, decoded⟩ | ⟨refused, safe, conf', ran⟩ | ⟨wrong, trap, ran⟩
  · rw [ran]
    exact .inl ⟨accepted, safe, conf', rfl, decoded⟩
  · rw [ran]
    exact .inr (.inl ⟨refused, safe, conf', rfl⟩)
  · rw [ran]
    exact .inr (.inr ⟨wrong, trap, rfl⟩)

/-- A parse that succeeds is one of an accepted document. -/
theorem parsed_decoded {document : Document} {conf₀ conf : AppConf}
    (parsed : appConfParseFile c document conf₀ = .ok (0, conf)) :
    Accepted document.root ∧ Decoded c document.root conf := by
  rcases appConfParseFile_cases c document conf₀ with
    ⟨accepted, _, conf', ran, decoded⟩ | ⟨_, _, conf', ran⟩ | ⟨_, trap, ran⟩
  · rw [ran] at parsed
    cases parsed
    exact ⟨accepted, decoded⟩
  · rw [ran] at parsed
    cases parsed
  · rw [ran] at parsed
    cases parsed

end Parser

/-! ### Documents -/

/-- A document of the dispatcher with these interfaces. -/
def documentOf (rx tx app : List Json) : Json :=
  .object [("app", .object [("name", .string "dispatcher"), ("core-id", .int 1),
    ("interfaces", .object [("rx-interfaces", .array rx), ("tx-interfaces", .array tx),
      ("app-interfaces", .array app)])])]

/-- A used interface on a NIC. -/
def nicItem (name : String) : Json :=
  .object [("if-name", .string name), ("used", .boolean true), ("is-eth", .boolean true)]

/-- A used interface on a ring. -/
def ringItem (name ring : String) : Json :=
  .object [("if-name", .string name), ("used", .boolean true), ("ring-name", .string ring)]

/-- The configuration in the memory of a process that starts. -/
def zeroConf : AppConf where
  appName := none
  coreId := 0
  store := ⟨⟨fun _ => none, fun _ => none, fun _ => none, fun _ => none, fun _ => 0⟩,
    fun _ _ => {}, 0⟩

/-- A NIC to receive from, with the bypass to a second one, and a ring for the application. -/
def smallDocument : Document where
  root := documentOf
    [.object [("if-name", .string "in"), ("used", .boolean true), ("is-eth", .boolean true),
      ("queue-id", .int 2), ("bypass-if-name", .string "out")], nicItem "spare"]
    [nicItem "out"] [ringItem "app" "ring_1"]
  fits := by simp [documentOf, nicItem, ringItem]

/-- The document can be parsed. -/
theorem smallDocument_parses :
    ∃ conf, appConfParseFile namesC smallDocument zeroConf = .ok (0, conf) := ⟨_, rfl⟩

end CyberPlatform.Dispatcher
