import Mathlib.Data.List.Sort
import ConflictGraph.PyDumps
import ConflictGraph.PyQuality

/-!
# Events as lines

`TraceEvent.to_dict` with `sort_keys=True`, and what `from_dict` makes of its line: the same
event, with the members of its metadata sorted (`parseEvent_dumps`).
-/

namespace ConflictGraph.Py

open Str

/-! ## Sorted members -/

/-- The order of `str`. -/
def keyLE : Str → Str → Bool
  | [], _ => true
  | _ :: _, [] => false
  | c :: s, d :: t => c < d || (c = d && keyLE s t)

/-- The items of a `dict` that is built of members: the last one of each name. -/
def lastMembers : List (Str × Json) → List (Str × Json)
  | [] => []
  | member :: rest =>
    if rest.any fun other => other.1 = member.1 then lastMembers rest else member :: lastMembers rest

/-- `sorted(dct.items())`. -/
@[irreducible] def sortMembers (members : List (Str × Json)) : List (Str × Json) :=
  (lastMembers members).insertionSort fun a b => keyLE a.1 b.1 = true

mutual

/-- A value with the members of its objects sorted. -/
def sorted : Json → Json
  | .null => .null
  | .bool b => .bool b
  | .int n => .int n
  | .float value => .float value
  | .string s => .string s
  | .array items => .array (sortedItems items)
  | .object members => .object (sortMembers (sortedMembers members))

def sortedItems : List Json → List Json
  | [] => []
  | item :: rest => sorted item :: sortedItems rest

def sortedMembers : List (Str × Json) → List (Str × Json)
  | [] => []
  | (key, value) :: rest => (key, sorted value) :: sortedMembers rest

end

theorem lookup_cons_of_ne {members : List (Str × Json)} {key name : Str} {value : Json}
    (h : key ≠ name) : ((name, value) :: members).lookup key = members.lookup key := by
  rw [List.lookup_cons, beq_eq_false_iff_ne.mpr h]

/-- The items are what is looked up, the last of each name. -/
theorem mem_lastMembers {members : List (Str × Json)} {key : Str} {value : Json} :
    (key, value) ∈ lastMembers members ↔ members.reverse.lookup key = some value := by
  induction members with
  | nil => exact iff_of_false List.not_mem_nil (Option.some_ne_none value).symm
  | cons member rest ih =>
    obtain ⟨name, value'⟩ := member
    rw [List.reverse_cons, List.lookup_append, lastMembers]
    rcases eq_or_ne key name with rfl | hne
    · rw [List.lookup_cons_self]
      split
      · rename_i hany
        obtain ⟨other, hother, hkey⟩ := List.any_eq_true.mp hany
        have hsome : (rest.reverse.lookup key).isSome = true :=
          List.lookup_isSome_iff.mpr ⟨other, List.mem_reverse.mpr hother,
            beq_iff_eq.mpr (of_decide_eq_true hkey).symm⟩
        obtain ⟨found, hfound⟩ := Option.isSome_iff_exists.mp hsome
        rw [ih, hfound, Option.some_or]
      · rename_i hany
        have hnone : rest.reverse.lookup key = none := by
          refine List.lookup_eq_none_iff.mpr fun other hother => bne_iff_ne.mpr fun heq => hany ?_
          exact List.any_eq_true.mpr ⟨other, List.mem_reverse.mp hother, decide_eq_true heq.symm⟩
        rw [List.mem_cons, ih, hnone, Option.none_or, Prod.mk.injEq, and_iff_right rfl,
          Option.some.injEq, or_iff_left (Option.some_ne_none value).symm]
        exact eq_comm
    · rw [lookup_cons_of_ne hne, List.lookup_nil, Option.or_none]
      split
      · exact ih
      · rw [List.mem_cons, ih, Prod.mk.injEq, or_iff_right fun h => hne h.1]

theorem mem_of_mem_lastMembers {members : List (Str × Json)} {member : Str × Json}
    (h : member ∈ lastMembers members) : member ∈ members := by
  induction members with
  | nil => exact h
  | cons first rest ih =>
    rw [lastMembers] at h
    split at h
    · exact List.mem_cons_of_mem _ (ih h)
    · exact (List.mem_cons.mp h).elim (fun heq => heq ▸ List.mem_cons_self)
        fun hrest => List.mem_cons_of_mem _ (ih hrest)

theorem perm_sortMembers (members : List (Str × Json)) :
    (sortMembers members).Perm (lastMembers members) := by
  rw [sortMembers]
  exact List.perm_insertionSort ..

theorem mem_of_mem_sortMembers {members : List (Str × Json)} {member : Str × Json}
    (h : member ∈ sortMembers members) : member ∈ members :=
  mem_of_mem_lastMembers ((perm_sortMembers members).mem_iff.mp h)

theorem nodup_lastMembers (members : List (Str × Json)) :
    ((lastMembers members).map Prod.fst).Nodup := by
  induction members with
  | nil => exact List.nodup_nil
  | cons member rest ih =>
    rw [lastMembers]
    split
    · exact ih
    · rename_i hany
      rw [List.map_cons, List.nodup_cons]
      refine ⟨fun hmem => hany ?_, ih⟩
      obtain ⟨other, hother, hkey⟩ := List.mem_map.mp hmem
      exact List.any_eq_true.mpr ⟨other, mem_of_mem_lastMembers hother, decide_eq_true hkey⟩

/-- What is looked up among members of different names is a member. -/
theorem lookup_eq_some_of_nodup {members : List (Str × Json)} (h : (members.map Prod.fst).Nodup)
    {key : Str} {value : Json} :
    members.lookup key = some value ↔ (key, value) ∈ members := by
  induction members with
  | nil => exact iff_of_false (Option.some_ne_none value).symm List.not_mem_nil
  | cons member rest ih =>
    obtain ⟨name, value'⟩ := member
    rw [List.map_cons, List.nodup_cons] at h
    rw [List.mem_cons, Prod.mk.injEq]
    rcases eq_or_ne key name with rfl | hne
    · have hnone : (key, value) ∉ rest := fun hmem =>
        h.1 (List.mem_map.mpr ⟨(key, value), hmem, rfl⟩)
      rw [List.lookup_cons_self, and_iff_right rfl, or_iff_left hnone, Option.some.injEq]
      exact eq_comm
    · rw [lookup_cons_of_ne hne, ih h.2, or_iff_right fun heq => hne heq.1]

/-- **Sorting does not change what is looked up.** -/
theorem lookup_sortMembers (members : List (Str × Json)) (key : String) :
    Json.lookup (sortMembers members) key = Json.lookup members key := by
  have hperm : (sortMembers members).reverse.Perm (lastMembers members) :=
    (List.reverse_perm _).trans (perm_sortMembers members)
  have hnodup : ((sortMembers members).reverse.map Prod.fst).Nodup :=
    (hperm.map Prod.fst).nodup_iff.mpr (nodup_lastMembers members)
  refine Option.ext fun value => ?_
  rw [Json.lookup, Json.lookup, lookup_eq_some_of_nodup hnodup, hperm.mem_iff, mem_lastMembers]

/-! ## Lines -/

/-- The value of a member of an enumeration. -/
def nameOf {α : Type} [DecidableEq α] (values : List (String × α)) (member : α) : Str :=
  match values.find? fun entry => entry.2 = member with
  | some entry => str entry.1
  | none => []

namespace TraceEvent

/-- The members of `to_dict`. -/
def members (event : TraceEvent) : List (Str × Json) :=
  [(str "execution_id", .string event.executionID),
    (str "test_id", .string event.testID),
    (str "timestamp_ns", .int event.timestampNS),
    (str "pid", .int event.pid),
    (str "tid", .int event.tid),
    (str "cgroup_id", .int event.cgroupID),
    (str "resource_type", .string (nameOf ResourceType.values event.resourceType)),
    (str "resource_identifier", .string event.resourceIdentifier),
    (str "operation", .string (nameOf Operation.values event.operation)),
    (str "access_mode", .string (nameOf AccessMode.values event.accessMode)),
    (str "source", .string (nameOf EventSource.values event.source)),
    (str "metadata", event.metadata),
    (str "sequence", .int event.sequence)]

/-- `to_dict`. -/
def toDict (event : TraceEvent) : Json := .object event.members

/-- The event with the members of its metadata sorted, which are those of the same `dict`. -/
def sortMetadata (event : TraceEvent) : TraceEvent := { event with metadata := sorted event.metadata }

/-- `json.dumps(event.to_dict(), sort_keys=True)`. -/
def dumps (interpreter : Interpreter) (event : TraceEvent) : Option Str :=
  encode interpreter (sorted event.toDict)

/-- JSON carries the event to a reader of this interpreter. -/
def IsCarried (interpreter : Interpreter) (event : TraceEvent) : Prop :=
  Carried interpreter interpreter.loadsDepth (sorted event.toDict)

theorem sorted_toDict (event : TraceEvent) :
    sorted event.toDict = .object (sortMembers event.sortMetadata.members) := rfl

end TraceEvent

/-- The name of a member stands for it. -/
theorem memberOf_nameOf (interpreter : Interpreter) {α : Type} [DecidableEq α]
    {values : List (String × α)} {member : α}
    (h : memberOf? values (.string (nameOf values member)) = some member) :
    memberOf interpreter values (.string (nameOf values member)) = .ok member := by
  rw [memberOf, h]

/-- **`from_dict` undoes `to_dict`**, in whatever order the members are. -/
theorem fromDict_sorted (interpreter : Interpreter) (event : TraceEvent) :
    TraceEvent.fromDict interpreter (sorted event.toDict) = .ok event.sortMetadata := by
  have hkind : memberOf interpreter ResourceType.values
      (.string (nameOf ResourceType.values event.resourceType)) = .ok event.resourceType :=
    memberOf_nameOf interpreter (by cases event.resourceType <;> rfl)
  have hoperation : memberOf interpreter Operation.values
      (.string (nameOf Operation.values event.operation)) = .ok event.operation :=
    memberOf_nameOf interpreter (by cases event.operation <;> rfl)
  have hmode : memberOf interpreter AccessMode.values
      (.string (nameOf AccessMode.values event.accessMode)) = .ok event.accessMode :=
    memberOf_nameOf interpreter (by cases event.accessMode <;> rfl)
  have hsource : memberOf interpreter EventSource.values
      (.string (nameOf EventSource.values event.source)) = .ok event.source :=
    memberOf_nameOf interpreter (by cases event.source <;> rfl)
  have hrequired : ∀ (key : String) {value : Json},
      Json.lookup event.sortMetadata.members key = some value →
        required (sortMembers event.sortMetadata.members) key = .ok value := by
    intro key value hvalue
    rw [required, lookup_sortMembers, hvalue]
  have hoptional : ∀ (key : String) {value default : Json},
      Json.lookup event.sortMetadata.members key = some value →
        optional (sortMembers event.sortMetadata.members) key default = value := by
    intro key value default hvalue
    rw [optional, lookup_sortMembers, hvalue, Option.getD_some]
  have hpid : ∀ {default : Json}, optional (sortMembers event.sortMetadata.members) "pid" default =
      .int event.pid := hoptional "pid" rfl
  rw [TraceEvent.sorted_toDict, TraceEvent.fromDict, hrequired "execution_id" rfl,
    hrequired "test_id" rfl, hrequired "timestamp_ns" rfl, hrequired "resource_type" rfl,
    hrequired "resource_identifier" rfl, hrequired "operation" rfl, hrequired "access_mode" rfl,
    hpid, hoptional "tid" rfl, hoptional "cgroup_id" rfl, hoptional "source" rfl,
    hoptional "metadata" rfl, hoptional "sequence" rfl]
  have hok : ∀ {α β : Type} (a : α) (f : α → Except ExceptionType β), (Except.ok a >>= f) = f a :=
    fun _ _ => rfl
  simp only [hok, strOf, textOf, intOfJson, TraceEvent.sortMetadata, hkind, hoperation, hmode, hsource]
  rfl

/-- **The line of an event is read as the event.** -/
theorem parseEvent_dumps {interpreter : Interpreter} {event : TraceEvent}
    (h : event.IsCarried interpreter) {text : Str} (htext : event.dumps interpreter = some text) :
    parseEvent interpreter text = .ok event.sortMetadata := by
  rw [parseEvent, loads_encode h htext]
  exact fromDict_sorted interpreter event

/-! ## Plain events -/

/-- JSON carries texts of ASCII. -/
theorem unpaired_ascii {s : Str} (h : ∀ c ∈ s, c < 128) : Unpaired s := by
  refine ⟨fun c hc => (h c hc).trans (by decide), List.isChain_iff_getElem.mpr fun i hi hpair => ?_⟩
  have hascii := h (s[i]) (List.getElem_mem _)
  exact absurd hpair.1 (by omega)

/-- **JSON carries the events of plain texts**, if it does their metadata. -/
theorem TraceEvent.isCarried {interpreter : Interpreter} {event : TraceEvent} {depth : ℕ}
    (hdepth : interpreter.loadsDepth = depth + 1) (hexecution : Unpaired event.executionID)
    (htest : Unpaired event.testID) (hidentifier : Unpaired event.resourceIdentifier)
    (hmetadata : Carried interpreter depth (sorted event.metadata)) :
    event.IsCarried interpreter := by
  have hkeys : ∀ member ∈ event.sortMetadata.members, ∀ c ∈ member.1, c < 128 := by
    have hall : ∀ name ∈ event.sortMetadata.members.map Prod.fst, ∀ c ∈ name, c < 128 := by
      change ∀ name ∈ [str "execution_id", str "test_id", str "timestamp_ns", str "pid", str "tid",
        str "cgroup_id", str "resource_type", str "resource_identifier", str "operation",
        str "access_mode", str "source", str "metadata", str "sequence"], _
      decide
    exact fun member hmember => hall member.1 (List.mem_map_of_mem hmember)
  have hkind : ∀ c ∈ nameOf ResourceType.values event.resourceType, c < 128 := by
    cases event.resourceType <;> decide
  have hoperation : ∀ c ∈ nameOf Operation.values event.operation, c < 128 := by
    cases event.operation <;> decide
  have hmode : ∀ c ∈ nameOf AccessMode.values event.accessMode, c < 128 := by
    cases event.accessMode <;> decide
  have hsource : ∀ c ∈ nameOf EventSource.values event.source, c < 128 := by
    cases event.source <;> decide
  have hvalues : ∀ member ∈ event.sortMetadata.members, Carried interpreter depth member.2 := by
    simp only [members, List.forall_mem_cons, List.not_mem_nil, false_implies, implies_true, and_true]
    exact ⟨.string hexecution, .string htest, .int _, .int _, .int _, .int _,
      .string (unpaired_ascii hkind), .string hidentifier, .string (unpaired_ascii hoperation),
      .string (unpaired_ascii hmode), .string (unpaired_ascii hsource), hmetadata, .int _⟩
  rw [IsCarried, sorted_toDict, hdepth]
  exact .object (fun member hmember => unpaired_ascii (hkeys member (mem_of_mem_sortMembers hmember)))
    fun member hmember => hvalues member (mem_of_mem_sortMembers hmember)

end ConflictGraph.Py
