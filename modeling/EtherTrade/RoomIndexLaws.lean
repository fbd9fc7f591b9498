import EtherTrade.RoomManagerService

/-!
# The maps of the room manager

`rooms` and `clientRooms` as the maps of the service, whose sets are made for the first element
and dropped with the last. They stand for the rooms of `RoomManagerService` after any calls.
-/

namespace EtherTrade.RoomIndexLaws

open RoomManagerService

/-! ### Maps of sets -/

section SetMaps

variable {κ α : Type} [DecidableEq κ] [DecidableEq α]

/-- A map whose values are sets. A key that is not there has none. -/
abbrev SetMap (κ α : Type) := κ → Option (List α)

variable (map : SetMap κ α) (key : κ) (x : α)

/-- The set of a key, made where it is not there, with another element. -/
def insertInto : SetMap κ α := Function.update map key (some (addTo ((map key).getD []) x))

/-- The set of a key without an element, and the map without the key when the set is empty. -/
def removeFrom : SetMap κ α :=
  match map key with
  | none => map
  | some set =>
    if deleteFrom set x = [] then Function.update map key none
    else Function.update map key (some (deleteFrom set x))

end SetMaps

/-! ### The service -/

structure RoomIndexes where
  rooms : SetMap String SocketId
  clientRooms : SetMap SocketId String

namespace RoomIndexes

variable (indexes : RoomIndexes) (client : SocketId) (room : String)

def empty : RoomIndexes := ⟨fun _ => none, fun _ => none⟩

def join : RoomIndexes where
  rooms := insertInto indexes.rooms room client
  clientRooms := insertInto indexes.clientRooms client room

def leave : RoomIndexes where
  rooms := removeFrom indexes.rooms room client
  clientRooms := removeFrom indexes.clientRooms client room

def removeClient : RoomIndexes :=
  match indexes.clientRooms client with
  | none => indexes
  | some subscriptions =>
    { rooms := subscriptions.foldl (fun rooms room => removeFrom rooms room client) indexes.rooms
      clientRooms := Function.update indexes.clientRooms client none }

/-- The client is in the set of the room. -/
def HasMember : Prop := ∃ clients, indexes.rooms room = some clients ∧ client ∈ clients

/-- The room is in the set of the client. -/
def HasRoom : Prop := ∃ rooms, indexes.clientRooms client = some rooms ∧ room ∈ rooms

end RoomIndexes

inductive RoomCall where
  | join (client : SocketId) (room : String)
  | leave (client : SocketId) (room : String)
  | removeClient (client : SocketId)
  deriving DecidableEq, Repr

def call (indexes : RoomIndexes) : RoomCall → RoomIndexes
  | .join client room => indexes.join client room
  | .leave client room => indexes.leave client room
  | .removeClient client => indexes.removeClient client

def run (calls : List RoomCall) : RoomIndexes := calls.foldl call .empty

/-! ### What maps stand for -/

section Represents

variable {κ α : Type} {map : SetMap κ α} {sets : κ → List α} {key : κ} {x : α}

/-- The map holds the sets that are not empty. -/
def Represents (map : SetMap κ α) (sets : κ → List α) : Prop :=
  ∀ key, map key = if sets key = [] then none else some (sets key)

theorem getD_of_represents (h : Represents map sets) : (map key).getD [] = sets key := by
  rw [h key]
  split
  · next hempty => exact hempty.symm
  · rfl

theorem mem_of_represents (h : Represents map sets) :
    (∃ set, map key = some set ∧ x ∈ set) ↔ x ∈ sets key := by
  rw [h key]
  split
  · next hempty => simp [hempty]
  · simp

theorem ne_some_nil_of_represents (h : Represents map sets) : map key ≠ some [] := by
  rw [h key]
  split
  · simp
  · next hne => exact fun hsome => hne (Option.some.inj hsome)

theorem eq_none_of_represents (h : Represents map sets) (hempty : sets key = []) :
    map key = none := by
  rw [h key, if_pos hempty]

variable [DecidableEq κ]

theorem represents_update (h : Represents map sets) {value : Option (List α)} {set : List α}
    (hvalue : value = if set = [] then none else some set) :
    Represents (Function.update map key value) (Function.update sets key set) := by
  intro other
  by_cases hother : other = key
  · subst hother
    rw [Function.update_self, Function.update_self, hvalue]
  · rw [Function.update_of_ne hother, Function.update_of_ne hother]
    exact h other

variable [DecidableEq α]

theorem represents_insertInto (h : Represents map sets) :
    Represents (insertInto map key x) (Function.update sets key (addTo (sets key) x)) := by
  have hne : addTo (sets key) x ≠ [] := List.ne_nil_of_mem (mem_addTo.mpr (Or.inr rfl))
  rw [insertInto, getD_of_represents h]
  exact represents_update h (if_neg hne).symm

theorem represents_removeFrom (h : Represents map sets) :
    Represents (removeFrom map key x) (Function.update sets key (deleteFrom (sets key) x)) := by
  have hkey := h key
  unfold removeFrom
  by_cases hempty : sets key = []
  · rw [if_pos hempty] at hkey
    have hsame : Function.update sets key (deleteFrom (sets key) x) = sets := by
      rw [hempty, deleteFrom, List.filter_nil, ← hempty, Function.update_eq_self]
    rw [hkey, hsame]
    exact h
  · rw [if_neg hempty] at hkey
    rw [hkey]
    by_cases hlast : deleteFrom (sets key) x = []
    · simp only [if_pos hlast]
      exact represents_update h (if_pos hlast).symm
    · simp only [if_neg hlast]
      exact represents_update h (if_neg hlast).symm

end Represents

/-! ### The calls -/

variable {indexes : RoomIndexes} {manager : RoomManager} {client : SocketId} {room : String}
  {calls : List RoomCall}

/-- Both maps hold the sets of the rooms. -/
structure Indexes (indexes : RoomIndexes) (manager : RoomManager) : Prop where
  rooms : Represents indexes.rooms manager.rooms
  clientRooms : Represents indexes.clientRooms manager.clientRooms

/-- A call on the rooms. -/
def roomCall (manager : RoomManager) : RoomCall → RoomManager
  | .join client room => manager.join client room
  | .leave client room => manager.leave client room
  | .removeClient client => manager.removeClient client

theorem represents_removeClient {rooms : SetMap String SocketId} {sets : String → List SocketId}
    (h : Represents rooms sets) (client : SocketId) (subscriptions : List String) :
    Represents (subscriptions.foldl (fun rooms room => removeFrom rooms room client) rooms)
      (RoomManager.deleteClient sets client subscriptions) := by
  induction subscriptions generalizing rooms sets with
  | nil => exact h
  | cons room subscriptions ih => exact ih (represents_removeFrom h)

/-- The maps follow the rooms. -/
theorem indexes_call (h : Indexes indexes manager) (next : RoomCall) :
    Indexes (call indexes next) (roomCall manager next) := by
  cases next with
  | join client room => exact ⟨represents_insertInto h.rooms, represents_insertInto h.clientRooms⟩
  | leave client room => exact ⟨represents_removeFrom h.rooms, represents_removeFrom h.clientRooms⟩
  | removeClient client =>
    have hclient := h.clientRooms client
    simp only [call, RoomIndexes.removeClient]
    by_cases hempty : manager.clientRooms client = []
    · rw [if_pos hempty] at hclient
      rw [hclient]
      refine ⟨?_, ?_⟩
      · change Represents _ (RoomManager.deleteClient manager.rooms client _)
        rw [hempty]
        exact h.rooms
      · change Represents _ (Function.update manager.clientRooms client [])
        rw [← hempty, Function.update_eq_self]
        exact h.clientRooms
    · rw [if_neg hempty] at hclient
      rw [hclient]
      exact ⟨represents_removeClient h.rooms client _, represents_update h.clientRooms rfl⟩

theorem indexes_foldl (h : Indexes indexes manager) (calls : List RoomCall) :
    Indexes (calls.foldl call indexes) (calls.foldl roomCall manager) := by
  induction calls generalizing indexes manager with
  | nil => exact h
  | cons next calls ih => exact ih (indexes_call h next)

theorem indexes_empty : Indexes .empty .empty := ⟨fun _ => rfl, fun _ => rfl⟩

theorem indexes_run (calls : List RoomCall) :
    Indexes (run calls) (calls.foldl roomCall .empty) := indexes_foldl indexes_empty calls

/-- Only a call of `join` brings a client into a room. -/
theorem notMem_foldl (hout : ∀ room, client ∉ manager.rooms room)
    (hcalls : ∀ room, .join client room ∉ calls) (room : String) :
    client ∉ (calls.foldl roomCall manager).rooms room := by
  induction calls generalizing manager with
  | nil => exact hout room
  | cons next calls ih =>
    refine ih (fun room => ?_) fun room hmem => hcalls room (List.mem_cons_of_mem _ hmem)
    cases next with
    | join other joined =>
      simp only [roomCall, RoomManager.mem_join]
      rintro (hmem | ⟨rfl, -⟩)
      · exact hout room hmem
      · exact hcalls joined List.mem_cons_self
    | leave other left =>
      simp only [roomCall, RoomManager.mem_leave]
      exact fun hmem => hout room hmem.1
    | removeClient other =>
      simp only [roomCall, RoomManager.mem_removeClient]
      exact fun hmem => hout room hmem.1

theorem clientRooms_eq_nil (hout : ∀ room, client ∉ manager.rooms room) :
    manager.clientRooms client = [] :=
  List.eq_nil_iff_forall_not_mem.mpr fun room hmem =>
    hout room ((manager.agree client room).mpr hmem)

/-- After any calls the two maps are inverse to each other and hold no empty set, and a client
that was removed is in neither until it joins again. -/
theorem roomIndexes_inverse (calls : List RoomCall) :
    (∀ client room, (run calls).HasMember client room ↔ (run calls).HasRoom client room) ∧
    (∀ room, (run calls).rooms room ≠ some []) ∧
    (∀ client, (run calls).clientRooms client ≠ some []) ∧
    ∀ earlier client later, calls = earlier ++ .removeClient client :: later →
      (∀ room, .join client room ∉ later) →
        (∀ room, ¬(run calls).HasMember client room) ∧ (run calls).clientRooms client = none := by
  have hindexes := indexes_run calls
  refine ⟨fun client room => ?_, fun room => ?_, fun client => ?_,
    fun earlier client later hsplit hlater => ?_⟩
  · exact (mem_of_represents hindexes.rooms).trans
      (((calls.foldl roomCall .empty).agree client room).trans
        (mem_of_represents hindexes.clientRooms).symm)
  · exact ne_some_nil_of_represents hindexes.rooms
  · exact ne_some_nil_of_represents hindexes.clientRooms
  · have hout (room : String) : client ∉ (calls.foldl roomCall .empty).rooms room := by
      rw [hsplit, List.foldl_append, List.foldl_cons]
      refine notMem_foldl (fun room => ?_) hlater room
      simp [roomCall]
    exact ⟨fun room hmem => hout room ((mem_of_represents hindexes.rooms).mp hmem),
      eq_none_of_represents hindexes.clientRooms (clientRooms_eq_nil hout)⟩

/-- A client is removed from its two rooms, and another one stays in one of them. -/
theorem roomIndexes_inverse_removed :
    (∀ room, ¬(run [.join 0 "trades:ETH-USDT", .join 1 "trades:ETH-USDT", .join 0 "user:u:orders",
      .removeClient 0, .leave 0 "trades:ETH-USDT"]).HasMember 0 room) ∧
    (run [.join 0 "trades:ETH-USDT", .join 1 "trades:ETH-USDT", .join 0 "user:u:orders",
      .removeClient 0, .leave 0 "trades:ETH-USDT"]).rooms "trades:ETH-USDT" = some [1] :=
  ⟨((roomIndexes_inverse _).2.2.2 [.join 0 "trades:ETH-USDT", .join 1 "trades:ETH-USDT",
    .join 0 "user:u:orders"] 0 [.leave 0 "trades:ETH-USDT"] rfl (by simp)).1, by decide⟩

end EtherTrade.RoomIndexLaws
