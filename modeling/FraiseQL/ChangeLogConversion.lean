import FraiseQL.ChangeLogBridge
import FraiseQL.ConditionEvaluator

/-! The event of a change-log row, as the polling listener makes it (`listener/change_log.rs`) and as the bridge does
(`transport/bridge.rs`). The listener takes the images out of the Debezium envelope and compares them field by field;
the bridge hands the envelope on as it is. -/

namespace FraiseQL.ChangeLogConversion

open List Option Except

open ChangeLogBridge (EventKind eventKind)
open ConditionDsl (Value FieldChanges)

variable {Uuid Instant : Type}

/-- UUIDs and timestamps as texts. -/
structure Library (Uuid Instant : Type) where
  parseUuid : String → Except String Uuid
  uuidText : Uuid → String
  parseRfc3339 : String → Option Instant
  /-- With the format `%Y-%m-%d %H:%M:%S%.f`. -/
  parseNaive : String → Except String Instant
  toRfc3339 : Instant → String

/-- `EntityEvent`, with all its fields. -/
structure EntityEvent (Uuid Instant : Type) where
  id : Uuid
  eventType : EventKind
  entityType : String
  entityId : Uuid
  data : Value
  changes : Option (List (String × FieldChanges))
  userId : Option String
  tenantId : Option String
  timestamp : Instant

/-- What conditions read of it. -/
def EntityEvent.observed (e : EntityEvent Uuid Instant) : ConditionDsl.EntityEvent := ⟨e.data, e.changes⟩

/-! ### The listener -/

/-- The listener's `ChangeLogEntry`, the fields its conversion reads. Its errors are the reasons of a
`TemplateRenderingFailed`. -/
structure ChangeLogEntry where
  pkEntityChangeLog : String
  fkContact : Option String
  objectType : String
  objectId : String
  objectData : Value
  createdAt : String

namespace ChangeLogEntry

variable (entry : ChangeLogEntry)

def debeziumOperation : Except String Char :=
  match entry.objectData.get "op" with
  | some (.string s) =>
    match s.toList.head? with
    | some c => .ok c
    | none => .error "Missing 'op' field in Debezium envelope"
  | _ => .error "Missing 'op' field in Debezium envelope"

def afterValues : Except String Value :=
  match entry.objectData.get "after" with
  | some after => .ok after
  | none => .error "Missing 'after' field in Debezium envelope"

def beforeValues : Option Value := entry.objectData.get "before"

/-- What the first loop of `build_field_changes` inserts for a field of the new image. -/
def compared (before : List (String × Value)) (key : String) (afterVal : Value) : Option FieldChanges :=
  match before.lookup key with
  | some beforeVal => if beforeVal ≠ afterVal then some ⟨beforeVal, afterVal⟩ else none
  | none => some ⟨.null, afterVal⟩

/-- What the second loop inserts for a field of the old image. -/
def removed (after : List (String × Value)) (key : String) (beforeVal : Value) : Option FieldChanges :=
  if (after.lookup key).isSome then none else some ⟨beforeVal, .null⟩

def changedFields (before after : List (String × Value)) : List (String × FieldChanges) :=
  (after.filterMap fun e => (compared before e.1 e.2).map (e.1, ·)) ++
    before.filterMap fun e => (removed after e.1 e.2).map (e.1, ·)

def buildFieldChanges : Except String (Option (List (String × FieldChanges))) := do
  if (← entry.debeziumOperation) ≠ 'u' then return none
  match entry.beforeValues with
  | some (.object before) =>
    match ← entry.afterValues with
    | .object after =>
      let changes := changedFields before after
      return if changes.isEmpty then none else some changes
    | _ => return none
  | _ => return none

/-- The kind of an operation code; `r` is a read. -/
def kindOf : Char → Except String EventKind
  | 'c' => .ok .created
  | 'u' => .ok .updated
  | 'd' => .ok .deleted
  | 'r' => .ok .custom
  | op => .error ("Unknown operation code: " ++ op.toString)

/-- The new image, or the old one of a deletion. -/
def eventData (kind : EventKind) : Except String Value :=
  if kind = .deleted then .ok (entry.beforeValues.getD (.object [])) else entry.afterValues

def eventChanges (kind : EventKind) : Except String (Option (List (String × FieldChanges))) :=
  if kind = .updated then entry.buildFieldChanges else .ok none

def timestamp (lib : Library Uuid Instant) : Except String Instant :=
  match lib.parseRfc3339 entry.createdAt with
  | some instant => .ok instant
  | none => (lib.parseNaive entry.createdAt).mapError fun e =>
    "Invalid timestamp format: " ++ entry.createdAt ++ " - " ++ e

def toEntityEvent (lib : Library Uuid Instant) (fresh : Uuid) : Except String (EntityEvent Uuid Instant) := do
  let eventKind ← kindOf (← entry.debeziumOperation)
  let entityId ← (lib.parseUuid entry.objectId).mapError fun e =>
    "Invalid entity ID (not UUID): " ++ entry.objectId ++ " - " ++ e
  let timestamp ← entry.timestamp lib
  let data ← entry.eventData eventKind
  let changes ← entry.eventChanges eventKind
  return {
    id := (lib.parseUuid entry.pkEntityChangeLog).toOption.getD fresh
    eventType := eventKind
    entityType := entry.objectType
    entityId, data, changes
    userId := entry.fkContact
    tenantId := none
    timestamp }

/-- An update with objects as its images; the keys of an object are distinct. -/
structure Updates (before after : List (String × Value)) : Prop where
  operation : entry.debeziumOperation = .ok 'u'
  old : entry.beforeValues = some (.object before)
  new : entry.afterValues = .ok (.object after)
  oldKeys : (before.map Prod.fst).Nodup
  newKeys : (after.map Prod.fst).Nodup

end ChangeLogEntry

open ChangeLogEntry

/-! ### Field changes -/

def valueAt (image : List (String × Value)) (key : String) : Value := (image.lookup key).getD .null

/-- The changes of an event are the differences of the images: a field is in them exactly when its values differ, with
these values, and the old image overwritten with the new values is the new image. -/
structure Exact (event : ConditionDsl.EntityEvent) (before after : List (String × Value)) : Prop where
  changed : ∀ key, event.fieldChanged key = true ↔ valueAt before key ≠ valueAt after key
  changedTo : ∀ key v, event.fieldChangedTo key v = true ↔
    valueAt before key ≠ valueAt after key ∧ valueAt after key = v
  changedFrom : ∀ key v, event.fieldChangedFrom key v = true ↔
    valueAt before key ≠ valueAt after key ∧ valueAt before key = v
  recorded : ∀ key change, event.change key = some change → change = ⟨valueAt before key, valueAt after key⟩
  overwritten : ∀ key, ((event.change key).map (·.new)).getD (valueAt before key) = valueAt after key

/-- Null under the key in one image, and no such key in the other. -/
def NullAndAbsent (one other : List (String × Value)) (key : String) : Prop :=
  one.lookup key = some .null ∧ other.lookup key = none

theorem lookup_filterMap {β : Type} {l : List (String × Value)} (hkeys : (l.map Prod.fst).Nodup)
    (f : String → Value → Option β) (key : String) :
    (l.filterMap fun e => (f e.1 e.2).map (e.1, ·)).lookup key = (l.lookup key).bind (f key) := by
  induction l with
  | nil => rfl
  | cons e l ih =>
    obtain ⟨k, v⟩ := e
    obtain ⟨hk, hl⟩ := nodup_cons.mp hkeys
    have hrest := ih hl
    by_cases hkey : key = k
    · subst hkey
      have hnone : l.lookup key = none := lookup_eq_none_iff.mpr fun e he => by
        rw [bne_iff_ne]
        exact fun heq => hk (mem_map.mpr ⟨e, he, heq.symm⟩)
      rw [lookup_cons_self, bind_some, filterMap_cons]
      cases hf : f key v with
      | none => simpa [hf, hnone] using hrest
      | some w => simp
    · have hbeq : (key == k) = false := beq_eq_false_iff_ne.mpr hkey
      rw [lookup_cons, hbeq, ← hrest, filterMap_cons]
      cases f k v with
      | none => rfl
      | some w => simp [lookup_cons, hbeq]

variable {before after : List (String × Value)}

/-- Per key, what the two loops insert. -/
theorem lookup_changedFields (hb : (before.map Prod.fst).Nodup) (ha : (after.map Prod.fst).Nodup) (key : String) :
    (changedFields before after).lookup key =
      if before.lookup key = after.lookup key then none else some ⟨valueAt before key, valueAt after key⟩ := by
  rw [changedFields, lookup_append, lookup_filterMap ha, lookup_filterMap hb, valueAt, valueAt]
  unfold compared removed
  cases before.lookup key with
  | none => cases after.lookup key <;> simp
  | some b =>
    cases after.lookup key with
    | none => simp
    | some a => by_cases hab : b = a <;> simp [hab]

theorem buildFieldChanges_updates {entry : ChangeLogEntry} (h : entry.Updates before after) :
    ∃ changes, entry.buildFieldChanges = .ok changes ∧ ∀ data key,
      (⟨data, changes⟩ : ConditionDsl.EntityEvent).change key = (changedFields before after).lookup key := by
  refine ⟨if (changedFields before after).isEmpty then none else some (changedFields before after), ?_, ?_⟩
  · rw [buildFieldChanges, h.operation, h.old, h.new]
    rfl
  · intro data key
    cases changedFields before after <;> rfl

/-- The changes of an update are exact as long as no key is null in one image and missing in the other. -/
theorem field_changes_iff (entry : ChangeLogEntry) (before after : List (String × Value))
    (h : entry.Updates before after) :
    (∃ changes, entry.buildFieldChanges = .ok changes ∧ ∀ data, Exact ⟨data, changes⟩ before after) ↔
      ∀ key, ¬NullAndAbsent before after key ∧ ¬NullAndAbsent after before key := by
  obtain ⟨changes, hbuild, hlookup⟩ := buildFieldChanges_updates h
  have hchange : ∀ data key, (⟨data, changes⟩ : ConditionDsl.EntityEvent).change key =
      if before.lookup key = after.lookup key then none else some ⟨valueAt before key, valueAt after key⟩ :=
    fun data key => (hlookup data key).trans (lookup_changedFields h.oldKeys h.newKeys key)
  constructor
  · rintro ⟨changes', hbuild', hexact⟩ key
    obtain rfl := ok.inj (hbuild.symm.trans hbuild')
    have hchanged := (hexact .null).changed key
    rw [ConditionDsl.EntityEvent.fieldChanged, hchange] at hchanged
    constructor
    · rintro ⟨hnull, habsent⟩
      simp [valueAt, hnull, habsent] at hchanged
    · rintro ⟨hnull, habsent⟩
      simp [valueAt, hnull, habsent] at hchanged
  · intro hnulls
    have hsame : ∀ key, before.lookup key = after.lookup key ↔ valueAt before key = valueAt after key := by
      intro key
      obtain ⟨hold, hnew⟩ := hnulls key
      rw [valueAt, valueAt]
      cases hb : before.lookup key with
      | none =>
        cases ha : after.lookup key with
        | none => exact iff_of_true rfl rfl
        | some a => exact iff_of_false nofun fun h => hnew ⟨ha.trans (congrArg some h.symm), hb⟩
      | some b =>
        cases ha : after.lookup key with
        | none => exact iff_of_false nofun fun h => hold ⟨hb.trans (congrArg some h), ha⟩
        | some a => exact some_inj
    refine ⟨changes, hbuild, fun data => ?_⟩
    have hchange : ∀ key, (⟨data, changes⟩ : ConditionDsl.EntityEvent).change key =
        if valueAt before key = valueAt after key then none else some ⟨valueAt before key, valueAt after key⟩ := by
      intro key
      rw [hchange]
      simp only [hsame]
    refine ⟨fun key => ?_, fun key v => ?_, fun key v => ?_, fun key change hrecorded => ?_, fun key => ?_⟩
    · rw [ConditionDsl.EntityEvent.fieldChanged, hchange]
      split_ifs with heq <;> simp [heq]
    · rw [ConditionDsl.EntityEvent.fieldChangedTo, hchange]
      split_ifs with heq <;> simp [heq]
    · rw [ConditionDsl.EntityEvent.fieldChangedFrom, hchange]
      split_ifs with heq <;> simp [heq]
    · rw [hchange] at hrecorded
      split_ifs at hrecorded
      exact (some.inj hrecorded).symm
    · rw [hchange]
      split_ifs with heq
      · exact heq
      · rfl

/-- An update of `name` that adds a null `nickname`. -/
def renamed (new : List (String × Value)) : ChangeLogEntry where
  pkEntityChangeLog := "0"
  fkContact := none
  objectType := "User"
  objectId := "1"
  objectData := .object [("op", .string "u"), ("before", .object [("name", .string "Jo")]), ("after", .object new)]
  createdAt := ""

theorem field_changes_renamed : ∃ changes, (renamed [("name", .string "Al")]).buildFieldChanges = .ok changes ∧
    ∀ data, Exact ⟨data, changes⟩ [("name", .string "Jo")] [("name", .string "Al")] := by
  refine (field_changes_iff _ _ _ ⟨rfl, rfl, rfl, by decide, by decide⟩).mpr fun key => ?_
  by_cases hkey : key = "name"
  · simp [NullAndAbsent, hkey]
  · simp [NullAndAbsent, lookup_cons, beq_eq_false_iff_ne.mpr hkey]

/-- A field that was missing and is null counts as changed. -/
theorem field_changes_null : ¬∃ changes, (renamed [("name", .string "Jo"), ("nickname", .null)]).buildFieldChanges =
    .ok changes ∧ ∀ data, Exact ⟨data, changes⟩ [("name", .string "Jo")]
      [("name", .string "Jo"), ("nickname", .null)] := by
  rintro ⟨changes, hbuild, hexact⟩
  obtain rfl := ok.inj ((by rfl : _ = ok (some [("nickname", ⟨.null, .null⟩)])).symm.trans hbuild)
  exact ((hexact .null).changed "nickname").mp rfl rfl

/-! ### The bridge -/

/-- A row of `tb_entity_change_log`, the columns that one of the conversions reads. -/
structure Row (Uuid Instant : Type) where
  id : Uuid
  fkContact : Option Int
  objectType : String
  objectId : Uuid
  modificationType : String
  objectData : Option Value
  createdAt : Instant
  natsEventId : Option Uuid

namespace Row

variable (row : Row Uuid Instant)

/-- The listener's entry, as `next_batch` fills it. A row without data is not decoded. -/
def listenerEntry (lib : Library Uuid Instant) : Option ChangeLogEntry :=
  row.objectData.map fun data =>
    { pkEntityChangeLog := lib.uuidText row.id
      fkContact := row.fkContact.map toString
      objectType := row.objectType
      objectId := lib.uuidText row.objectId
      objectData := data
      createdAt := lib.toRfc3339 row.createdAt }

/-- The bridge's `ChangeLogEntry::to_entity_event`. -/
def bridgeEvent (toUppercase : String → String) (fresh : Uuid) (now : Instant) :
    Except ObserverError (EntityEvent Uuid Instant) :=
  (eventKind toUppercase row.modificationType).map fun eventType =>
    { id := row.natsEventId.getD fresh
      eventType
      entityType := row.objectType
      entityId := row.objectId
      data := row.objectData.getD .null
      changes := none
      userId := row.fkContact.map toString
      tenantId := none
      timestamp := now }

end Row

theorem sizeOf_get {v w : Value} {key : String} (h : v.get key = some w) : sizeOf w < sizeOf v := by
  cases v with
  | object entries =>
    rw [Value.get] at h
    have hmem : (key, w) ∈ entries := by
      obtain ⟨before, after, rfl, -⟩ := lookup_eq_some_iff.mp h
      exact mem_append_right _ mem_cons_self
    have hentry := sizeOf_lt_of_mem hmem
    simp only [Prod.mk.sizeOf_spec, Value.object.sizeOf_spec] at hentry ⊢
    omega
  | _ => cases h

/-- The data of the listener's event is not the envelope: an image in it is smaller, and the empty object has no
operation code. -/
theorem eventData_ne {entry : ChangeLogEntry} {kind : EventKind} {op : Char} {data : Value}
    (hop : entry.debeziumOperation = .ok op) (h : entry.eventData kind = .ok data) : data ≠ entry.objectData := by
  rintro rfl
  have himage : ∀ key, entry.objectData.get key ≠ some entry.objectData := fun key hget =>
    Nat.lt_irrefl _ (sizeOf_get hget)
  rw [eventData] at h
  split_ifs at h with hdeleted
  · have hdata := ok.inj h
    rw [beforeValues] at hdata
    cases hbefore : entry.objectData.get "before" with
    | some before =>
      rw [hbefore, getD_some] at hdata
      exact himage "before" (hdata ▸ hbefore)
    | none =>
      rw [hbefore, getD_none] at hdata
      rw [debeziumOperation, ← hdata] at hop
      cases hop
  · rw [afterValues] at h
    cases hafter : entry.objectData.get "after" with
    | some after =>
      rw [hafter] at h
      exact himage "after" (hafter.trans (congrArg some (ok.inj h)))
    | none =>
      rw [hafter] at h
      cases h

/-- On no row do both conversions build the same event. -/
theorem conversions_differ (lib : Library Uuid Instant) (toUppercase : String → String) (row : Row Uuid Instant)
    (fresh fresh' : Uuid) (now : Instant) (entry : ChangeLogEntry) (e e' : EntityEvent Uuid Instant)
    (hentry : row.listenerEntry lib = some entry) (hlistener : entry.toEntityEvent lib fresh = .ok e)
    (hbridge : row.bridgeEvent toUppercase fresh' now = .ok e') : e.data ≠ e'.data ∧ e ≠ e' := by
  obtain ⟨envelope, henvelope, rfl⟩ := map_eq_some_iff.mp hentry
  obtain ⟨kind', -, rfl⟩ := Outcome.map_eq_ok.mp hbridge
  simp only [toEntityEvent, Outcome.bind_eq_ok] at hlistener
  obtain ⟨op, hop, _, -, _, -, _, -, data, hdata, _, -, he⟩ := hlistener
  have hsame : e.data = data := congrArg EntityEvent.data (ok.inj he).symm
  have hne : e.data ≠ (row.objectData.getD .null) := by
    rw [hsame, henvelope]
    exact eventData_ne hop hdata
  exact ⟨hne, fun heq => hne (congrArg EntityEvent.data heq)⟩

/-- UUIDs and instants as their texts. -/
def texts : Library String String := ⟨.ok, id, some, .ok, id⟩

def inserted : Row String String where
  id := "0"
  fkContact := none
  objectType := "Order"
  objectId := "1"
  modificationType := "INSERT"
  objectData := some (.object [("after", .object [("total", .bool true)]), ("op", .string "c")])
  createdAt := "2026-01-22T10:00:00Z"
  natsEventId := some "0"

theorem conversions_inserted : ∃ entry e e', inserted.listenerEntry texts = some entry ∧
    entry.toEntityEvent texts "0" = .ok e ∧ inserted.bridgeEvent id "0" "" = .ok e' ∧ e.data ≠ e'.data ∧ e ≠ e' :=
  ⟨_, _, _, rfl, rfl, rfl, conversions_differ texts id inserted "0" "0" "" _ _ _ rfl rfl rfl⟩

/-- `has_field(total)` holds of the listener's event and not of the bridge's. -/
theorem conversions_disagree : ¬∀ (row : Row String String) entry e e', row.listenerEntry texts = some entry →
    entry.toEntityEvent texts "0" = .ok e → row.bridgeEvent id "0" "" = .ok e' →
      e = e' ∧ ∀ json ast, ConditionDsl.evaluate json ast e.observed = ConditionDsl.evaluate json ast e'.observed := by
  intro h
  obtain ⟨-, hconditions⟩ := h inserted _ _ _ rfl rfl rfl
  exact absurd (hconditions ConditionDsl.digitsText (.hasField "total")) (by decide)

end FraiseQL.ChangeLogConversion
