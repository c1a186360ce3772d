import Mathlib.Algebra.BigOperators.Fin
import TaskPlatform.Library.Trace
import TaskPlatform.Notifications.NotificationsService

/-! The way of a new notification to the sockets, in queue mode with `REDIS_URL`: the worker that creates it publishes
    it on a Redis channel, the subscriber in each API process emits it there, and the gateway of that process emits it
    to a room, which the Redis adapter of Socket.IO broadcasts to the sockets of the room in all API processes. -/

namespace TaskPlatform.Realtime
open Notifications

/-! ### The gateway -/

/-- `user:${userId}`. -/
structure Room where
  userId : UuidText
  deriving DecidableEq

/-- A socket after its handshake. -/
structure Socket where
  id : Nat
  userId : Uuid
  deriving DecidableEq

/-- What the clients get with the event `notification`. -/
structure Payload where
  id : Uuid
  type : NotificationType
  title : String
  body : Option String
  entityType : Option String
  entityId : Option UuidText
  createdAt : Timestamptz
  deriving DecidableEq

namespace NotificationsGateway

def room (userId : UuidText) : Room := ⟨userId⟩

/-- The token of the handshake names the user; a socket without a valid one is disconnected. -/
def handleConnection (id : Nat) (verified : Option Uuid) : Option Socket := verified.map fun sub => ⟨id, sub⟩

/-- The room that a socket joined. -/
def joined (k : Socket) : Room := room k.userId.text

def payload (notification : Notification) : Payload :=
  { id := notification.id, type := notification.type, title := notification.title, body := notification.body,
    entityType := notification.entityType, entityId := notification.entityId, createdAt := notification.createdAt }

/-- What is emitted for a new notification, and to which room. -/
def pushNotification (notification : Notification) : Room × Payload :=
  (room notification.recipientId, payload notification)

end NotificationsGateway

open NotificationsGateway

/-! ### The processes -/

/-- An API process: its sockets, the messages of the channel that its subscriber has not handled, and the packets of
    the adapter that it has not sent to its sockets. -/
structure Api where
  sockets : List Socket
  messages : List Notification
  packets : List (Room × Payload)

/-- The API processes, the ids that sockets had so far, and which sockets received what. -/
structure Cluster (n : Nat) where
  api : Fin n → Api
  ids : List Nat
  received : List (Socket × Payload)

inductive Move (n : Nat) where
  | connect (i : Fin n) (socketId : Nat) (verified : Option Uuid)
  | disconnect (i : Fin n) (socketId : Nat)
  /-- A worker creates a notification. -/
  | create (notification : Notification)
  /-- A subscriber handles its next message. -/
  | message (i : Fin n)
  /-- The next packet reaches the sockets of a process. -/
  | packet (i : Fin n)
  deriving DecidableEq

variable {n : Nat}

/-- Publishes a notification: every subscriber of the channel gets it once. -/
def RealtimePublisher.publish (notification : Notification) (c : Cluster n) : Cluster n :=
  { c with api := fun i => { c.api i with messages := (c.api i).messages ++ [notification] } }

/-- `server.to(room).emit(payload)` with the Redis adapter. -/
def broadcast (e : Room × Payload) (c : Cluster n) : Cluster n :=
  { c with api := fun i => { c.api i with packets := (c.api i).packets ++ [e] } }

/-- Emits `notification.created` in the process; the gateway is its listener. -/
def RealtimeSubscriber.handleMessage (notification : Notification) (c : Cluster n) : Cluster n :=
  broadcast (pushNotification notification) c

/-- A packet reaches the sockets in its room. -/
def Api.deliver (a : Api) (e : Room × Payload) : List (Socket × Payload) :=
  (a.sockets.filter (joined · = e.1)).map fun k => (k, e.2)

def Cluster.set (c : Cluster n) (i : Fin n) (a : Api) : Cluster n := { c with api := Function.update c.api i a }

def step (c : Cluster n) : Move n → Option (Cluster n)
  | .connect i id verified =>
    if id ∈ c.ids then none
    else
      some { c.set i { c.api i with sockets := (c.api i).sockets ++ (handleConnection id verified).toList } with
        ids := id :: c.ids }
  | .disconnect i id => some (c.set i { c.api i with sockets := (c.api i).sockets.filter (·.id ≠ id) })
  | .create notification => some (RealtimePublisher.publish notification c)
  | .message i =>
    match (c.api i).messages with
    | [] => none
    | x :: rest => some (RealtimeSubscriber.handleMessage x (c.set i { c.api i with messages := rest }))
  | .packet i =>
    match (c.api i).packets with
    | [] => none
    | e :: rest =>
      some { c.set i { c.api i with packets := rest } with received := c.received ++ (c.api i).deliver e }

/-- The notification is on its way to the sockets of the process no more. -/
def Cluster.Arrived (c : Cluster n) (i : Fin n) (x : Notification) : Prop :=
  (∀ j, x ∉ (c.api j).messages) ∧ pushNotification x ∉ (c.api i).packets

/-- Where the sockets are. No two of them have one id. -/
structure Placement (n : Nat) where
  sockets : Fin n → List Socket
  nodup : ∀ i, (sockets i).Nodup
  apart : ∀ i j, ∀ k ∈ sockets i, ∀ l ∈ sockets j, k.id = l.id → i = j ∧ k = l

def Placement.start (p : Placement n) : Cluster n where
  api i := ⟨p.sockets i, [], []⟩
  ids := (List.finRange n).flatMap fun i => (p.sockets i).map Socket.id
  received := []

def Move.created? : Move n → Option Notification
  | .create x => some x
  | _ => none

/-- The notifications that are created in the run. -/
def created (ms : List (Move n)) : List Notification := ms.filterMap Move.created?

/-- The socket is connected from the creation of the notification until it has arrived at the process of the socket,
    whatever comes before and after that. -/
def Placement.Connected (p : Placement n) (ms : List (Move n)) (x : Notification) (k : Socket) : Prop :=
  ∃ before during after c c' i, ms = before ++ .create x :: (during ++ after) ∧
    Trace.run step p.start before = some c ∧ k ∈ (c.api i).sockets ∧ .disconnect i k.id ∉ during ∧
    Trace.run step c (.create x :: during) = some c' ∧ c'.Arrived i x

end TaskPlatform.Realtime
