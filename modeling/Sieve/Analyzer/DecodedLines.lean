import Sieve.Analyzer.ParseLine
import Sieve.Library.FoldExcept
import Sieve.Server.LearnLog

/-!
# Which lines of the learner's log are decoded

The lines that the server writes, read by the analyzer.

* `Reports`: what the client reports, texts without tabs and newlines and bodies in JSON;
* `Decodes`: the parse function for the line returns the fields that were reported;
* `tokensFrom_logLine`: the tokens of a line are its fields;
* `decodes_iff`: cache reads, REST lists and some other records are not decoded.
-/

namespace Sieve.Analyzer

open Sieve.Event Sieve.Library Sieve.Server

/-! ### What is reported and what is decoded -/

/-- The name in the metadata of the object. -/
def HasName (obj : Json) (name : Text) : Prop :=
  ∃ fields metadata, obj = .obj fields ∧ fields.lookup "metadata" = some (.obj metadata) ∧
    metadata.lookup "name" = some (.str (String.ofList name))

/-- The namespace in the metadata of the object, or the default one. -/
def HasNamespace (obj : Json) (objNamespace : Text) : Prop :=
  ∃ fields metadata, obj = .obj fields ∧ fields.lookup "metadata" = some (.obj metadata) ∧
    (metadata.lookup "namespace" = some (.str (String.ofList objNamespace)) ∨
      metadata.lookup "namespace" = none ∧ objNamespace = "default".toList)

/-- Each object stands under its key. -/
def ByKey (rtype : Text) (objs : List Json) (keyToObj : List (Text × Json)) : Prop :=
  List.Forall₂ (fun obj entry => entry.2 = obj ∧ ∃ objNamespace name,
    HasNamespace obj objNamespace ∧ HasName obj name ∧ entry.1 = slashKey rtype objNamespace name)
    objs keyToObj

/-- A Kubernetes list object with these items. -/
def IsListObject (obj : Json) (items : List Json) : Prop :=
  ∃ fields, obj = .obj fields ∧ fields.lookup "items" = some (.arr items)

/-- Bodies are in JSON: the object of an informer event has a name, and what a REST List returns is a
list object. -/
def HasJsonBody (loads : Text → Option Json) : Notification → Prop
  | .beforeControllerRecv _ _ _ object =>
    ∃ obj objNamespace name, loads object = some obj ∧ HasNamespace obj objNamespace ∧
      HasName obj name
  | .afterRestWrite _ report => ∃ obj, loads report.objectBody = some obj
  | .afterRestRead _ report =>
    ∃ obj, loads report.objectBody = some obj ∧ (report.controllerOperationType = "Get".toList ∨
      report.controllerOperationType = "List".toList ∧ ∃ items, IsListObject obj items)
  | .afterCacheGet _ _ _ _ _ object => ∃ obj, loads object = some obj
  | .afterCacheList _ _ _ objectList => ∃ objs, loads objectList = some (.arr objs)
  | _ => True

/-- What the client reports: texts of one line without tabs, and bodies in JSON. -/
structure Reports (loads : Text → Option Json) (notification : Notification) : Prop where
  plain : ∀ text ∈ notification.texts, '\t' ∉ text ∧ '\n' ∉ text
  body : HasJsonBody loads notification

/-- The parse function for the line returns the fields that were reported.  A write without a name
reports it in its body.  No parse function is for the line before a REST read. -/
def Decodes (loads : Text → Option Json) (stamp : Stamp) (count : ℤ) (notification : Notification) :
    Prop :=
  let line := logLine stamp count notification
  match notification with
  | .beforeControllerRecv id operationType resourceType object =>
    ∃ event, parseControllerHear loads line = .ok event ∧ event.id = id ∧
      event.etype = operationType ∧ event.rtype = resourceType ∧ loads object = some event.objMap ∧
      HasNamespace event.objMap event.objNamespace ∧ HasName event.objMap event.name
  | .afterControllerRecv id => parseControllerHearIdOnly line = .ok id
  | .beforeRestWrite id => parseControllerWriteIdOnly line = .ok id
  | .afterRestWrite id report =>
    ∃ event, parseControllerWrite loads line = .ok event ∧ event.id = id ∧
      event.etype = report.controllerOperationType ∧ event.rtype = report.resourceType ∧
      event.reconcileFun = report.reconcileFun ∧ event.error = report.error ∧
      event.objNamespace = report.objNamespace ∧ loads report.objectBody = some event.objMap ∧
      if report.name = [] then HasName event.objMap event.name else event.name = report.name
  | .beforeRestRead _ => True
  | .afterRestRead _ report =>
    ∃ event obj, parseControllerRead loads line = .ok event ∧
      event.etype = report.controllerOperationType ∧ event.fromCache = false ∧
      event.rtype = report.resourceType ∧ event.reconcileFun = report.reconcileFun ∧
      event.error = report.error ∧ loads report.objectBody = some obj ∧
      if report.controllerOperationType = "Get".toList then
        event.keyToObj = [(slashKey report.resourceType report.objNamespace report.name, obj)]
      else ∃ items, IsListObject obj items ∧ ByKey report.resourceType items event.keyToObj
  | .beforeAnnotatedAPICall id => parseControllerNonK8sWriteIdOnly line = .ok id
  | .afterAnnotatedAPICall id report =>
    parseControllerNonK8sWrite line = .ok ⟨id, report.moduleName, report.filePath,
      report.receiverType, report.funName, report.reconcileFun⟩
  | .afterCacheGet resourceType objNamespace name reconcileFun error object =>
    ∃ event obj, parseControllerCacheRead loads line = .ok event ∧ event.etype = "Get".toList ∧
      event.fromCache = true ∧ event.rtype = resourceType ∧ event.reconcileFun = reconcileFun ∧
      event.error = error ∧ loads object = some obj ∧
      event.keyToObj = [(slashKey resourceType objNamespace name, obj)]
  | .afterCacheList resourceType reconcileFun error objectList =>
    ∃ event objs, parseControllerCacheRead loads line = .ok event ∧ event.etype = "List".toList ∧
      event.fromCache = true ∧ event.rtype = resourceType ∧ event.reconcileFun = reconcileFun ∧
      event.error = error ∧ loads objectList = some (.arr objs) ∧
      ByKey resourceType objs event.keyToObj
  | .beforeControllerReconcile reconcilerName =>
    parseReconcile line = .ok ⟨true, reconcilerName, formatInt count⟩
  | .afterControllerReconcile reconcilerName =>
    parseReconcile line = .ok ⟨false, reconcilerName, formatInt count⟩

/-- The records that are decoded. -/
def Decodable (loads : Text → Option Json) : Notification → Prop
  | .afterRestWrite _ report => report.controllerOperationType ≠ "DeleteAllOf".toList ∧
      (report.name = [] → ∃ obj name, loads report.objectBody = some obj ∧ HasName obj name)
  | .afterRestRead _ report => report.controllerOperationType = "Get".toList
  | .afterCacheGet _ _ _ _ _ _ | .afterCacheList _ _ _ _ => False
  | .afterControllerReconcile reconcilerName => ¬ SIEVE_BEFORE_RECONCILE_MARK <:+: reconcilerName
  | _ => True

/-! ### The tokens of a line -/

theorem plain_formatInt (n : ℤ) : '\t' ∉ formatInt n ∧ '\n' ∉ formatInt n :=
  ⟨not_mem_formatInt (by decide) (by decide) n, not_mem_formatInt (by decide) (by decide) n⟩

section Lines

variable {stamp : Stamp} {count : ℤ} {notification : Notification}

/-- What is looked for in a line. -/
structure IsMark (mark : Text) : Prop where
  head : ∃ rest, mark = '[' :: rest
  plain : '\t' ∉ mark ∧ '\n' ∉ mark

theorem isMark_mark : IsMark notification.mark := by
  refine ⟨?_, ?_⟩
  · cases notification <;> exact ⟨_, rfl⟩
  · cases notification <;> (dsimp only [Notification.mark]; decide)

/-- Without tabs and newlines in the texts there are none in the fields. -/
theorem plain_fields (h : ∀ text ∈ notification.texts, '\t' ∉ text ∧ '\n' ∉ text) :
    ∀ field ∈ notification.fields count, '\t' ∉ field ∧ '\n' ∉ field := by
  have hget : '\t' ∉ "Get".toList ∧ '\n' ∉ "Get".toList := by decide
  have hlist : '\t' ∉ "List".toList ∧ '\n' ∉ "List".toList := by decide
  intro field hfield
  cases notification with
  | beforeControllerReconcile f | afterControllerReconcile f =>
    obtain rfl | hrest := List.mem_cons.mp hfield
    · exact h _ List.mem_cons_self
    · rw [List.mem_singleton.mp hrest]
      exact plain_formatInt count
  | beforeRestWrite id | beforeRestRead id | beforeAnnotatedAPICall id | afterControllerRecv id =>
    rw [List.mem_singleton.mp hfield]
    exact plain_formatInt id
  | afterRestWrite id report | afterRestRead id report | afterAnnotatedAPICall id report
  | beforeControllerRecv id _ _ _ =>
    obtain rfl | hrest := List.mem_cons.mp hfield
    · exact plain_formatInt id
    · exact h _ hrest
  | afterCacheGet | afterCacheList =>
    obtain rfl | hrest := List.mem_cons.mp hfield
    · assumption
    · exact h _ hrest

theorem bracket_not_mem_stamp : '[' ∉ stamp.1 := by
  intro hmem
  have hchar := stamp.2 _ hmem
  revert hchar
  decide

/-- The line after its stamp begins with its mark. -/
theorem fromFirst_logLine : fromFirst notification.mark (logLine stamp count notification) =
    some (['\t'].intercalate (notification.mark :: notification.fields count) ++ ['\n']) := by
  obtain ⟨rest, hmark⟩ := (@isMark_mark notification).head
  have hstarts : notification.mark <+:
      ['\t'].intercalate (notification.mark :: notification.fields count) ++ ['\n'] := by
    cases notification.fields count with
    | nil => simp
    | cons field fields => simp [List.intercalate_cons_cons]
  rw [logLine, List.append_assoc, ← fromFirst_of_prefix hstarts, hmark,
    fromFirst_append bracket_not_mem_stamp]

/-- **The tokens of a line are its mark and its fields.** -/
theorem tokensFrom_logLine (h : ∀ text ∈ notification.texts, '\t' ∉ text ∧ '\n' ∉ text) :
    tokensFrom notification.mark (logLine stamp count notification) =
      .ok (notification.mark :: notification.fields count) := by
  have hplain : ∀ field ∈ notification.mark :: notification.fields count,
      '\t' ∉ field ∧ '\n' ∉ field := by
    intro field hfield
    obtain rfl | hrest := List.mem_cons.mp hfield
    · exact isMark_mark.plain
    · exact plain_fields h field hrest
  have hnewline : '\n' ∉ ['\t'].intercalate (notification.mark :: notification.fields count) :=
    not_mem_intercalate (fun field hfield => (hplain field hfield).2) (by decide)
  rw [tokensFrom, fromFirst_logLine]
  simp only [strip_append_singleton hnewline]
  rw [List.splitOn_intercalate _ (fun field hfield => (hplain field hfield).1) (List.cons_ne_nil _ _)]

/-- A mark is in a line when it is in one of the fields. -/
theorem infix_logLine_iff {mark : Text} (hmark : IsMark mark) :
    mark <:+: logLine stamp count notification ↔
      ∃ field ∈ notification.mark :: notification.fields count, mark <:+: field := by
  obtain ⟨⟨rest, rfl⟩, htab, hnewline⟩ := hmark
  rw [logLine, List.append_assoc, infix_append_iff bracket_not_mem_stamp,
    infix_append_cons_iff hnewline, infix_intercalate_iff htab (List.cons_ne_nil _ _)]
  simp

theorem not_infix_formatInt {mark : Text} (hmark : IsMark mark) (n : ℤ) :
    ¬ mark <:+: formatInt n := by
  obtain ⟨rest, rfl⟩ := hmark.head
  intro hwithin
  exact not_mem_formatInt (by decide) (by decide) n (hwithin.mem List.mem_cons_self)

/-- The line of an id has no mark but its own. -/
theorem not_infix_idLine (id : ℤ) {mark : Text} (hmark : IsMark mark)
    (hother : ¬ mark <:+: notification.mark) (hfields : notification.fields count = [formatInt id]) :
    ¬ mark <:+: logLine stamp count notification := by
  rw [infix_logLine_iff hmark, hfields]
  rintro ⟨field, hfield, hwithin⟩
  obtain rfl | hrest := List.mem_cons.mp hfield
  · exact hother hwithin
  · rw [List.mem_singleton.mp hrest] at hwithin
    exact not_infix_formatInt hmark id hwithin

end Lines

/-! ### Names and namespaces -/

section Names

variable {obj : Json} {objNamespace name : Text}

theorem asText_eq_ok {value : Json} {text : Text} :
    asText value = .ok text ↔ value = .str (String.ofList text) := by
  cases value <;> simp [asText, ← String.toList_inj, String.toList_ofList]

theorem extractName_iff : extractName obj >>= asText = .ok name ↔ HasName obj name := by
  constructor
  · intro h
    obtain ⟨value, hextract, htext⟩ := bind_ok_iff.mp h
    rw [asText_eq_ok] at htext
    obtain ⟨has, hhas, hname⟩ := bind_ok_iff.mp hextract
    cases has with
    | false => cases hname
    | true =>
      obtain ⟨metadata, hmetadata, hitem⟩ := bind_ok_iff.mp hname
      cases obj with
      | obj fields =>
        cases metadata with
        | obj metadata =>
          refine ⟨fields, metadata, rfl, ?_, ?_⟩
          · revert hmetadata
            simp only [getItem]
            cases fields.lookup "metadata" <;> simp
          · rw [← htext]
            revert hitem
            simp only [getItem]
            cases metadata.lookup "name" <;> simp
        | _ => cases hitem
      | _ => cases hmetadata
  · rintro ⟨fields, metadata, rfl, hmetadata, hname⟩
    simp [extractName, hasItem, getItem, hmetadata, hname, asText, bind, Except.bind,
      String.toList_ofList]

theorem metadataNamespace_of {fields metadata : Fields}
    (hmetadata : fields.lookup "metadata" = some (.obj metadata))
    (h : HasNamespace (.obj fields) objNamespace) :
    metadataNamespace (.obj metadata) = .ok (.str (String.ofList objNamespace)) := by
  obtain ⟨fields', metadata', hobj, hmetadata', hnamespace⟩ := h
  rw [← Json.obj.inj hobj, hmetadata, Option.some.injEq, Json.obj.injEq] at hmetadata'
  rw [← hmetadata'] at hnamespace
  obtain hlookup | ⟨hlookup, rfl⟩ := hnamespace <;>
    simp [metadataNamespace, hasItem, getItem, hlookup, bind, Except.bind]

theorem extractNamespaceName_of (hnamespace : HasNamespace obj objNamespace)
    (hname : HasName obj name) : extractNamespaceName obj =
      .ok (.str (String.ofList objNamespace), .str (String.ofList name)) := by
  obtain ⟨fields, metadata, rfl, hmetadata, hlookup⟩ := hname
  have hdefault := metadataNamespace_of hmetadata hnamespace
  simp [extractNamespaceName, hasItem, getItem, hmetadata, hlookup, hdefault, bind, Except.bind]

end Names

/-! ### The records, kind by kind -/

section Kinds

variable {loads : Text → Option Json} {stamp : Stamp} {count : ℤ}

theorem toInt_formatInt (n : ℤ) : toInt (formatInt n) = .ok n := by
  rw [toInt, parseInt_formatInt]

theorem decodes_hear {id : ℤ} {operationType resourceType object : Text}
    (h : Reports loads (.beforeControllerRecv id operationType resourceType object)) :
    Decodes loads stamp count (.beforeControllerRecv id operationType resourceType object) := by
  obtain ⟨obj, objNamespace, name, hloads, hnamespace, hname⟩ := h.body
  have htokens : tokensFrom SIEVE_BEFORE_HEAR_MARK _ = _ := @tokensFrom_logLine stamp count _ h.plain
  refine ⟨⟨id, operationType, resourceType, objNamespace, name, obj⟩, ?_, rfl, rfl, rfl, hloads,
    hnamespace, hname⟩
  rw [parseControllerHear, htokens]
  show controllerHear loads (formatInt id) operationType resourceType object = _
  simp [controllerHear, toInt_formatInt, jsonLoads, hloads,
    extractNamespaceName_of hnamespace hname, asText, bind, Except.bind, String.toList_ofList]

/-- What a write is decoded to. -/
theorem controllerWrite_ok_iff {id : ℤ} {etype reconcileFun error rtype objNamespace name objStr : Text}
    {obj : Json} (hloads : loads objStr = some obj) {event : ParsedWrite} :
    controllerWrite loads (formatInt id) etype reconcileFun error rtype objNamespace name objStr =
      .ok event ↔
    etype ≠ "DeleteAllOf".toList ∧
      event = ⟨id, etype, rtype, reconcileFun, error, objNamespace, event.name, obj⟩ ∧
      if name = [] then HasName obj event.name else event.name = name := by
  rw [controllerWrite, toInt_formatInt, jsonLoads, hloads]
  show (if etype = _ then _ else _) = _ ↔ _
  by_cases hetype : etype = "DeleteAllOf".toList
  · simp [hetype]
  · rw [if_neg hetype]
    by_cases hname : name = []
    · simp only [hname, if_true, ne_eq, hetype, not_false_eq_true, true_and, not_true_eq_false,
        if_false]
      rw [← extractName_iff]
      constructor
      · intro h
        obtain ⟨_, hobj, hrest⟩ := bind_ok_iff.mp h
        obtain ⟨name', hname', hevent⟩ := bind_ok_iff.mp hrest
        rw [← Except.ok.inj hobj] at hname' hevent
        rw [← Except.ok.inj hevent]
        exact ⟨rfl, hname'⟩
      · rintro ⟨hevent, hname'⟩
        rw [hevent]
        exact bind_ok_iff.mpr ⟨obj, rfl, bind_ok_iff.mpr ⟨event.name, hname', rfl⟩⟩
    · simp only [hname, if_false, ne_eq, hetype, not_false_eq_true, true_and, if_true]
      show Except.ok _ = _ ↔ _
      rw [Except.ok.injEq]
      constructor
      · rintro rfl
        exact ⟨rfl, rfl⟩
      · rintro ⟨hevent, hname'⟩
        rw [hevent, hname']

theorem decodes_write_iff {id : ℤ} {report : RestReport}
    (h : Reports loads (.afterRestWrite id report)) :
    Decodes loads stamp count (.afterRestWrite id report) ↔
      Decodable loads (.afterRestWrite id report) := by
  obtain ⟨obj, hloads⟩ := h.body
  have htokens : tokensFrom SIEVE_AFTER_REST_WRITE_MARK _ = _ :=
    @tokensFrom_logLine stamp count _ h.plain
  have hparse : parseControllerWrite loads (logLine stamp count (.afterRestWrite id report)) =
      controllerWrite loads (formatInt id) report.controllerOperationType report.reconcileFun
        report.error report.resourceType report.objNamespace report.name report.objectBody := by
    rw [parseControllerWrite, htokens]
    rfl
  show (∃ event, _ = _ ∧ _) ↔ _
  simp only [hparse, controllerWrite_ok_iff hloads, Decodable]
  constructor
  · rintro ⟨event, ⟨hetype, _, hname⟩, _⟩
    refine ⟨hetype, fun hempty => ⟨obj, event.name, hloads, ?_⟩⟩
    rwa [if_pos hempty] at hname
  · rintro ⟨hetype, hname⟩
    by_cases hempty : report.name = []
    · obtain ⟨obj', name, hloads', hasName⟩ := hname hempty
      rw [hloads] at hloads'
      rw [← Option.some.inj hloads'] at hasName
      refine ⟨⟨id, _, _, _, _, _, name, obj⟩, ⟨hetype, rfl, ?_⟩, rfl, rfl, rfl, rfl, rfl, rfl, hloads, ?_⟩
        <;> rwa [if_pos hempty]
    · refine ⟨⟨id, _, _, _, _, _, report.name, obj⟩, ⟨hetype, rfl, ?_⟩, rfl, rfl, rfl, rfl, rfl, rfl,
        hloads, ?_⟩ <;> rw [if_neg hempty]

theorem controllerRead_get {fromCache : Bool} {rtype objNamespace name reconcileFun error objStr : Text}
    {obj : Json} (hloads : loads objStr = some obj) :
    controllerRead loads "Get".toList (.bool fromCache) rtype objNamespace name reconcileFun error
      objStr = .ok ⟨"Get".toList, false, rtype, reconcileFun, error,
        [(slashKey rtype objNamespace name, obj)]⟩ := by
  simp [controllerRead, readObjects, jsonLoads, hloads, bind, Except.bind]

/-- A flag that is not a text is not equal to one. -/
theorem controllerRead_fromCache {etype : Text} {fromCache : Bool}
    {rtype objNamespace name reconcileFun error objStr : Text} {event : ParsedRead}
    (h : controllerRead loads etype (.bool fromCache) rtype objNamespace name reconcileFun error
      objStr = .ok event) : event.fromCache = false := by
  obtain ⟨objs, _, hrest⟩ := bind_ok_iff.mp h
  obtain ⟨keyToObj, _, hevent⟩ := bind_ok_iff.mp hrest
  rw [← Except.ok.inj hevent]

/-- The items of a list object are not looked at: going through it goes through its keys. -/
theorem controllerRead_listObject {fromCache : Json}
    {rtype objNamespace name reconcileFun error objStr : Text} {obj : Json} {items : List Json}
    (hloads : loads objStr = some obj) (hitems : IsListObject obj items) :
    controllerRead loads "List".toList fromCache rtype objNamespace name reconcileFun error objStr =
      .error .typeError := by
  obtain ⟨fields, rfl, hlookup⟩ := hitems
  cases fields with
  | nil => cases hlookup
  | cons field fields =>
    simp [controllerRead, readObjects, jsonLoads, hloads, iterate, addObjects, getItem, bind,
      Except.bind]

theorem parseControllerRead_of_tokens (loads : Text → Option Json) {line mark id etype f error rtype objNamespace name body : Text}
    (h : tokensFrom SIEVE_AFTER_REST_READ_MARK line =
      .ok [mark, id, etype, f, error, rtype, objNamespace, name, body]) :
    parseControllerRead loads line =
      if etype = "Get".toList then
        controllerRead loads etype (.bool false) rtype objNamespace name f error body
      else if etype = "List".toList then
        controllerRead loads etype (.bool false) rtype [] [] f error body
      else .error .assertion := by
  rw [parseControllerRead, h]
  rfl

theorem decodes_read_iff {id : ℤ} {report : RestReport}
    (h : Reports loads (.afterRestRead id report)) :
    Decodes loads stamp count (.afterRestRead id report) ↔
      Decodable loads (.afterRestRead id report) := by
  obtain ⟨obj, hloads, hetype⟩ := h.body
  have hparse := parseControllerRead_of_tokens loads (@tokensFrom_logLine stamp count _ h.plain)
  show (∃ event obj, parseControllerRead loads _ = _ ∧ _) ↔ _ = _
  rw [hparse]
  obtain hget | ⟨hlist, items, hitems⟩ := hetype
  · rw [if_pos hget, hget, controllerRead_get hloads]
    exact iff_of_true ⟨_, obj, rfl, rfl, rfl, rfl, rfl, rfl, hloads, by rw [if_pos rfl]⟩ rfl
  · have hne : report.controllerOperationType ≠ "Get".toList := by
      rw [hlist]
      decide
    rw [if_neg hne, if_pos hlist, hlist, controllerRead_listObject hloads hitems]
    refine iff_of_false ?_ (by decide)
    rintro ⟨event, obj', herror, _⟩
    cases herror

/-- Whatever a cache read is decoded to, it is not said to be from the cache. -/
theorem parseControllerCacheRead_fromCache {line : Text} {event : ParsedRead}
    (h : parseControllerCacheRead loads line = .ok event) : event.fromCache = false := by
  obtain ⟨tokens, _, h⟩ := bind_ok_iff.mp h
  obtain ⟨etype, _, h⟩ := bind_ok_iff.mp h
  split at h
  · simp only [bind_ok_iff] at h
    obtain ⟨_, _, _, _, _, _, _, _, _, _, _, _, h⟩ := h
    exact controllerRead_fromCache h
  · split at h
    · simp only [bind_ok_iff] at h
      obtain ⟨_, _, _, _, _, _, _, _, h⟩ := h
      exact controllerRead_fromCache h
    · cases h

/-- The mark that is in the line is looked for. -/
theorem parseIdOnly_eq {before after mark line : Text} {id : ℤ}
    (hmark : mark = after ∨ mark = before ∧ ¬ after <:+: line)
    (htokens : tokensFrom mark line = .ok [mark, formatInt id]) :
    parseIdOnly before after line = .ok id := by
  rw [parseIdOnly]
  obtain rfl | ⟨rfl, hafter⟩ := hmark
  · have hwithin : mark <:+: line := by
      rw [← fromFirst_isSome]
      rw [tokensFrom] at htokens
      cases hfirst : fromFirst mark line with
      | none => simp [hfirst] at htokens
      | some rest => rfl
    rw [if_pos hwithin, htokens]
    exact toInt_formatInt id
  · rw [if_neg hafter, htokens]
    exact toInt_formatInt id

theorem decodes_call {id : ℤ} {report : CallReport}
    (h : Reports loads (.afterAnnotatedAPICall id report)) :
    Decodes loads stamp count (.afterAnnotatedAPICall id report) := by
  have htokens : tokensFrom SIEVE_AFTER_ANNOTATED_API_INVOCATION_MARK _ = _ :=
    @tokensFrom_logLine stamp count _ h.plain
  show parseControllerNonK8sWrite _ = _
  rw [parseControllerNonK8sWrite, htokens]
  show (toInt (formatInt id) >>= fun id => _) = _
  rw [toInt_formatInt]
  rfl

theorem isMark_beforeReconcile : IsMark SIEVE_BEFORE_RECONCILE_MARK := ⟨⟨_, rfl⟩, by decide⟩

theorem decodes_beginReconcile {reconcilerName : Text}
    (h : Reports loads (.beforeControllerReconcile reconcilerName)) :
    Decodes loads stamp count (.beforeControllerReconcile reconcilerName) := by
  have htokens : tokensFrom SIEVE_BEFORE_RECONCILE_MARK _ = _ :=
    @tokensFrom_logLine stamp count _ h.plain
  have hwithin : SIEVE_BEFORE_RECONCILE_MARK <:+:
      logLine stamp count (.beforeControllerReconcile reconcilerName) :=
    (infix_logLine_iff isMark_beforeReconcile).mpr
      ⟨SIEVE_BEFORE_RECONCILE_MARK, List.mem_cons_self, List.infix_rfl⟩
  show parseReconcile _ = _
  rw [parseReconcile, if_pos hwithin, htokens]
  rfl

theorem decodes_endReconcile_iff {reconcilerName : Text}
    (h : Reports loads (.afterControllerReconcile reconcilerName)) :
    Decodes loads stamp count (.afterControllerReconcile reconcilerName) ↔
      Decodable loads (.afterControllerReconcile reconcilerName) := by
  have htokens : tokensFrom SIEVE_AFTER_RECONCILE_MARK _ = _ :=
    @tokensFrom_logLine stamp count _ h.plain
  have hwithin : SIEVE_BEFORE_RECONCILE_MARK <:+:
      logLine stamp count (.afterControllerReconcile reconcilerName) ↔
      SIEVE_BEFORE_RECONCILE_MARK <:+: reconcilerName := by
    refine (infix_logLine_iff isMark_beforeReconcile).trans ?_
    show (∃ field ∈ [SIEVE_AFTER_RECONCILE_MARK, reconcilerName, formatInt count], _) ↔ _
    have hmark : ¬ SIEVE_BEFORE_RECONCILE_MARK <:+: SIEVE_AFTER_RECONCILE_MARK := by decide
    have hcount : ¬ SIEVE_BEFORE_RECONCILE_MARK <:+: formatInt count :=
      not_infix_formatInt isMark_beforeReconcile count
    simp only [List.mem_cons, List.not_mem_nil, or_false, exists_eq_or_imp, exists_eq_left]
    exact ⟨fun h => h.elim (fun h => absurd h hmark) fun h => h.resolve_right hcount,
      fun h => Or.inr (Or.inl h)⟩
  show parseReconcile _ = _ ↔ ¬ _
  rw [parseReconcile]
  by_cases hname : SIEVE_BEFORE_RECONCILE_MARK <:+: reconcilerName
  · rw [if_pos (hwithin.mpr hname)]
    refine iff_of_false ?_ (not_not.mpr hname)
    intro hparse
    obtain ⟨tokens, _, hparse⟩ := bind_ok_iff.mp hparse
    obtain ⟨f, _, hparse⟩ := bind_ok_iff.mp hparse
    obtain ⟨n, _, hparse⟩ := bind_ok_iff.mp hparse
    cases hparse
  · rw [if_neg fun hline => hname (hwithin.mp hline), htokens]
    exact iff_of_true rfl hname

end Kinds

/-- **A record that the client reports is decoded exactly when it is no cache read, no REST list, no
DeleteAllOf, no write without any name and no end of a reconciler with the mark in its name.** -/
theorem decodes_iff (loads : Text → Option Json) (stamp : Stamp) (count : ℤ)
    (notification : Notification) (h : Reports loads notification) :
    Decodes loads stamp count notification ↔ Decodable loads notification := by
  have hcache : ∀ {line event}, parseControllerCacheRead loads line = .ok event →
      event.fromCache ≠ true := by
    intro line event hparse
    rw [parseControllerCacheRead_fromCache hparse]
    exact Bool.false_ne_true
  have htokens := @tokensFrom_logLine stamp count _ h.plain
  cases notification with
  | beforeControllerReconcile f => exact iff_of_true (decodes_beginReconcile h) trivial
  | afterControllerReconcile f => exact decodes_endReconcile_iff h
  | beforeRestWrite id =>
    refine iff_of_true (parseIdOnly_eq (Or.inr ⟨rfl, ?_⟩) htokens) trivial
    exact not_infix_idLine id ⟨⟨_, rfl⟩, by decide⟩ (by dsimp only [Notification.mark]; decide) rfl
  | afterRestWrite id report => exact decodes_write_iff h
  | beforeRestRead id => exact Iff.rfl
  | afterRestRead id report => exact decodes_read_iff h
  | beforeAnnotatedAPICall id =>
    refine iff_of_true (parseIdOnly_eq (Or.inr ⟨rfl, ?_⟩) htokens) trivial
    exact not_infix_idLine id ⟨⟨_, rfl⟩, by decide⟩ (by dsimp only [Notification.mark]; decide) rfl
  | afterAnnotatedAPICall id report => exact iff_of_true (decodes_call h) trivial
  | afterCacheGet =>
    refine iff_of_false ?_ not_false
    rintro ⟨event, obj, hparse, _, hfromCache, _⟩
    exact hcache hparse hfromCache
  | afterCacheList =>
    refine iff_of_false ?_ not_false
    rintro ⟨event, objs, hparse, _, hfromCache, _⟩
    exact hcache hparse hfromCache
  | beforeControllerRecv => exact iff_of_true (decodes_hear h) trivial
  | afterControllerRecv id => exact iff_of_true (parseIdOnly_eq (Or.inl rfl) htokens) trivial

/-- The body of an object that has only a name. -/
def nameBody : Text := "\x7b\"metadata\":\x7b\"name\":\"a\"\x7d\x7d".toList

def nameObject : Json := .obj [("metadata", .obj [("name", .str "a")])]

/-- `json.loads` as far as this body is concerned. -/
def nameLoads (text : Text) : Option Json := if text = nameBody then some nameObject else none

def stamp2023 : Stamp := ⟨"2023/01/02 03:04:05 ".toList, by decide⟩

theorem hasName_nameObject : HasName nameObject "a".toList := ⟨_, _, rfl, rfl, rfl⟩

theorem nameLoads_nameBody : nameLoads nameBody = some nameObject := by rw [nameLoads, if_pos rfl]

/-- A create, whose path has no name. -/
def createReport : Notification :=
  .afterRestWrite 7 ⟨"Create".toList, "f".toList, "NoError".toList, "pod".toList, "default".toList, [],
    nameBody⟩

theorem decodes_iff_create : Decodes nameLoads stamp2023 0 createReport :=
  (decodes_iff nameLoads stamp2023 0 createReport
    ⟨by decide, nameObject, nameLoads_nameBody⟩).mpr
    ⟨by decide, fun _ => ⟨nameObject, _, nameLoads_nameBody, hasName_nameObject⟩⟩

def cacheGetReport : Notification :=
  .afterCacheGet "pod".toList "default".toList "a".toList "f".toList "NoError".toList nameBody

/-- The read of a cached object is decoded as a read that is not from the cache. -/
theorem cacheGet_not_decoded :
    Reports nameLoads cacheGetReport ∧ ¬ Decodes nameLoads stamp2023 0 cacheGetReport := by
  refine ⟨⟨by decide, nameObject, nameLoads_nameBody⟩, ?_⟩
  rintro ⟨event, obj, hparse, _, hfromCache, _⟩
  rw [parseControllerCacheRead_fromCache hparse] at hfromCache
  cases hfromCache

end Sieve.Analyzer
