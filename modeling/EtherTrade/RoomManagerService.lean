import Mathlib.Data.List.Basic
import Mathlib.Logic.Function.Basic

/-!
# Rooms of WebSocket clients

The rooms of a gateway node with their members, and the rooms of each client. The two
indexes agree, and no room has a member twice.
-/

namespace EtherTrade.RoomManagerService

/-- A WebSocket of a gateway node. -/
abbrev SocketId := ℕ

/-! ### Sets

A set in the order in which its elements were added. -/

section Sets

variable {α : Type} [DecidableEq α] {xs : List α} {x y : α}

def addTo (xs : List α) (x : α) : List α := if x ∈ xs then xs else xs ++ [x]

def deleteFrom (xs : List α) (x : α) : List α := xs.filter (· ≠ x)

theorem mem_addTo : y ∈ addTo xs x ↔ y ∈ xs ∨ y = x := by
  unfold addTo
  split
  · next hmem =>
    constructor
    · exact Or.inl
    · rintro (h | rfl)
      · exact h
      · exact hmem
  · rw [List.mem_append, List.mem_singleton]

theorem mem_deleteFrom : y ∈ deleteFrom xs x ↔ y ∈ xs ∧ y ≠ x := by
  rw [deleteFrom, List.mem_filter, decide_eq_true_eq]

theorem nodup_addTo (h : xs.Nodup) : (addTo xs x).Nodup := by
  unfold addTo
  split
  · exact h
  · next hmem =>
    refine List.nodup_append.mpr ⟨h, by simp, fun y hy z hz => ?_⟩
    rw [List.mem_singleton] at hz
    rintro rfl
    exact hmem (hz ▸ hy)

theorem nodup_deleteFrom (h : xs.Nodup) : (deleteFrom xs x).Nodup := h.filter _

end Sets

/-! ### The service -/

/-- An empty set stands for a key that is not there. -/
structure RoomManager where
  rooms : String → List SocketId
  clientRooms : SocketId → List String
  nodup : ∀ room, (rooms room).Nodup
  agree : ∀ client room, client ∈ rooms room ↔ room ∈ clientRooms client

namespace RoomManager

variable (manager : RoomManager) {client other : SocketId} {room : String}

def empty : RoomManager := ⟨fun _ => [], fun _ => [], fun _ => List.nodup_nil, by simp⟩

/-- A change of the clients of one room. -/
def setRoom (rooms : String → List SocketId) (room : String)
    (f : List SocketId → List SocketId) : String → List SocketId :=
  Function.update rooms room (f (rooms room))

theorem setRoom_nodup {rooms : String → List SocketId} {f : List SocketId → List SocketId}
    (h : ∀ room, (rooms room).Nodup) (hf : ∀ xs, xs.Nodup → (f xs).Nodup) (changed room : String) :
    (setRoom rooms changed f room).Nodup := by
  by_cases hroom : room = changed
  · subst hroom
    rw [setRoom, Function.update_self]
    exact hf _ (h room)
  · rw [setRoom, Function.update_of_ne hroom]
    exact h room

theorem mem_setRoom_addTo {rooms : String → List SocketId} {joined : String} :
    other ∈ setRoom rooms joined (addTo · client) room ↔
      other ∈ rooms room ∨ other = client ∧ room = joined := by
  by_cases hroom : room = joined
  · subst hroom
    rw [setRoom, Function.update_self, mem_addTo]
    simp
  · rw [setRoom, Function.update_of_ne hroom]
    simp [hroom]

theorem mem_setRoom_deleteFrom {rooms : String → List SocketId} {left : String} :
    other ∈ setRoom rooms left (deleteFrom · client) room ↔
      other ∈ rooms room ∧ ¬(other = client ∧ room = left) := by
  by_cases hroom : room = left
  · subst hroom
    rw [setRoom, Function.update_self, mem_deleteFrom]
    simp
  · rw [setRoom, Function.update_of_ne hroom]
    simp [hroom]

def join (client : SocketId) (room : String) : RoomManager where
  rooms := setRoom manager.rooms room (addTo · client)
  clientRooms := Function.update manager.clientRooms client (addTo (manager.clientRooms client) room)
  nodup := setRoom_nodup manager.nodup (fun _ => nodup_addTo) room
  agree := by
    intro other place
    rw [mem_setRoom_addTo, manager.agree]
    by_cases hother : other = client
    · subst hother
      rw [Function.update_self, mem_addTo]
      simp
    · rw [Function.update_of_ne hother]
      simp [hother]

def leave (client : SocketId) (room : String) : RoomManager where
  rooms := setRoom manager.rooms room (deleteFrom · client)
  clientRooms :=
    Function.update manager.clientRooms client (deleteFrom (manager.clientRooms client) room)
  nodup := setRoom_nodup manager.nodup (fun _ => nodup_deleteFrom) room
  agree := by
    intro other place
    rw [mem_setRoom_deleteFrom, manager.agree]
    by_cases hother : other = client
    · subst hother
      rw [Function.update_self, mem_deleteFrom]
      simp
    · rw [Function.update_of_ne hother]
      simp [hother]

/-- The loop over the rooms of a client. -/
def deleteClient (rooms : String → List SocketId) (client : SocketId) (subscriptions : List String) :
    String → List SocketId :=
  subscriptions.foldl (fun rooms room => setRoom rooms room (deleteFrom · client)) rooms

theorem mem_deleteClient {rooms : String → List SocketId} {subscriptions : List String} :
    other ∈ deleteClient rooms client subscriptions room ↔
      other ∈ rooms room ∧ ¬(other = client ∧ room ∈ subscriptions) := by
  induction subscriptions generalizing rooms with
  | nil => simp [deleteClient]
  | cons left subscriptions ih =>
    rw [deleteClient, List.foldl_cons]
    change other ∈ deleteClient _ client subscriptions room ↔ _
    rw [ih, mem_setRoom_deleteFrom, List.mem_cons]
    tauto

theorem nodup_deleteClient {rooms : String → List SocketId} {subscriptions : List String}
    (h : ∀ room, (rooms room).Nodup) : (deleteClient rooms client subscriptions room).Nodup := by
  induction subscriptions generalizing rooms with
  | nil => exact h room
  | cons left subscriptions ih =>
    exact ih (setRoom_nodup h (fun _ => nodup_deleteFrom) left)

def removeClient (client : SocketId) : RoomManager where
  rooms := deleteClient manager.rooms client (manager.clientRooms client)
  clientRooms := Function.update manager.clientRooms client []
  nodup _ := nodup_deleteClient manager.nodup
  agree := by
    intro other room
    rw [mem_deleteClient, manager.agree]
    by_cases hother : other = client
    · subst hother
      simp
    · simp [hother]

def getUserPrivateRoom (userId subTopic : String) : String :=
  "user:" ++ (userId ++ (":" ++ subTopic))

@[simp] theorem mem_empty : client ∉ empty.rooms room := List.not_mem_nil

@[simp] theorem mem_join {joined : String} :
    other ∈ (manager.join client joined).rooms room ↔
      other ∈ manager.rooms room ∨ other = client ∧ room = joined := mem_setRoom_addTo

@[simp] theorem mem_leave {left : String} :
    other ∈ (manager.leave client left).rooms room ↔
      other ∈ manager.rooms room ∧ ¬(other = client ∧ room = left) := mem_setRoom_deleteFrom

/-- A client that is removed is in no room, and the others are where they were. -/
@[simp] theorem mem_removeClient :
    other ∈ (manager.removeClient client).rooms room ↔
      other ∈ manager.rooms room ∧ other ≠ client := by
  change other ∈ deleteClient manager.rooms client (manager.clientRooms client) room ↔ _
  rw [mem_deleteClient, ← manager.agree]
  constructor
  · rintro ⟨hmem, hnot⟩
    refine ⟨hmem, ?_⟩
    rintro rfl
    exact hnot ⟨rfl, hmem⟩
  · rintro ⟨hmem, hne⟩
    exact ⟨hmem, fun h => hne h.1⟩

end RoomManager

end EtherTrade.RoomManagerService
