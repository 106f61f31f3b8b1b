/-
# NovaRuntime.Queue.Backend — `StorageQueueBackend` of `backend.rs`

A message is stored under `queue:msg:Q:id`; an empty value under `queue:available:`,
`queue:inflight:`, `queue:delayed:` or `queue:dlq:` says what state it is in. Every
method is a sequence of calls of the store beneath, which is taken as correct.
Identifiers of scanned keys are read off the text of the key.

Each method takes the time it reads as `now`, and `dequeue` the identifiers it draws
for its receipt handles, one for each key it looks at. `max_messages` is a `u32` in
the source; nothing depends on its bound.
-/
import NovaRuntime.Queue.Types

namespace NovaRuntime.Queue

open NovaRuntime.Library

set_option autoImplicit false

/-- A method of the backend: it changes the store behind it. -/
abbrev Method (α : Type) := Exec QueueError (KeyValue Stored) α

/-! ## Keys -/

def metaLabel : Text := "queue:meta:".toList
def msgLabel : Text := "queue:msg:".toList
def availableLabel : Text := "queue:available:".toList
def inflightLabel : Text := "queue:inflight:".toList
def delayedLabel : Text := "queue:delayed:".toList
def dlqLabel : Text := "queue:dlq:".toList
def statsLabel : Text := "queue:stats:".toList

/-- `format!("{label}{queue_name}:{msg_id}")`. -/
def entryKey (U : UuidText) (label queueName : Text) (msgId : Uuid) : Bytes :=
  utf8 (label ++ (queueName ++ ':' :: U.display msgId))

def queueMetaKey (name : Text) : Bytes := utf8 (metaLabel ++ name)
def queueMsgKey (U : UuidText) : Text → Uuid → Bytes := entryKey U msgLabel
def queueAvailableKey (U : UuidText) : Text → Uuid → Bytes := entryKey U availableLabel
def queueInflightKey (U : UuidText) : Text → Uuid → Bytes := entryKey U inflightLabel
def queueDelayedKey (U : UuidText) : Text → Uuid → Bytes := entryKey U delayedLabel
def queueDlqKey (U : UuidText) : Text → Uuid → Bytes := entryKey U dlqLabel
def queueStatsKey (name : Text) : Bytes := utf8 (statsLabel ++ name)

/-- The start of the range of a queue's keys, `format!("{label}{queue_name}:")`. -/
def entryStart (label queueName : Text) : Bytes := utf8 (label ++ (queueName ++ [':']))

/-- `store.scan(start..end)` with the end one `0xFF` behind the start. -/
def scanEntries (label queueName : Text) : Method (List (Bytes × Stored)) :=
  let start := entryStart label queueName
  KeyValue.scan start (start ++ [0xFF])

/-- The identifier in an index key: the parts from the third on. -/
def messageId (U : UuidText) (key : Bytes) : Option Uuid :=
  let parts := key.splitOn 0x3A
  if parts.length < 4 then none else U.parseStr ([0x3A].intercalate (parts.drop 3))

/-! ## Queues -/

def createQueue (config : IndividualQueueConfig) : Method Unit := do
  let metaKey := queueMetaKey config.name
  match ← KeyValue.get metaKey with
  | some _ => Exec.lift (.err (.alreadyExists config.name))
  | none => KeyValue.set metaKey (.config config)

def getQueue (name : Text) : Method IndividualQueueConfig := do
  match ← KeyValue.get (queueMetaKey name) with
  | none => Exec.lift (.err (.notFound name))
  | some (.config config) => pure config
  | some _ => Exec.lift (.err .internal)

def updateQueue (config : IndividualQueueConfig) : Method Unit := do
  let metaKey := queueMetaKey config.name
  match ← KeyValue.get metaKey with
  | none => Exec.lift (.err (.notFound config.name))
  | some _ => KeyValue.set metaKey (.config config)

def pause (now : Int) (queueName : Text) : Method Unit := do
  let config ← getQueue queueName
  updateQueue { config with paused := true, updatedAt := now }

def resume (now : Int) (queueName : Text) : Method Unit := do
  let config ← getQueue queueName
  updateQueue { config with paused := false, updatedAt := now }

/-- Delete what a scan of the queue's keys under one label finds. -/
def purgeEntries (label queueName : Text) : Method Unit := do
  let entries ← scanEntries label queueName
  let ops := entries.map fun e => (e.1, none)
  if ops.isEmpty then pure () else KeyValue.batch ops

def purge (queueName : Text) : Method Unit := do
  purgeEntries msgLabel queueName
  purgeEntries availableLabel queueName
  purgeEntries inflightLabel queueName
  purgeEntries delayedLabel queueName
  purgeEntries dlqLabel queueName

def deleteQueue (name : Text) : Method Unit := do
  let metaKey := queueMetaKey name
  match ← KeyValue.get metaKey with
  | none => Exec.lift (.err (.notFound name))
  | some _ => do
      KeyValue.delete metaKey
      purgeEntries msgLabel name
      purgeEntries availableLabel name
      purgeEntries inflightLabel name
      purgeEntries delayedLabel name
      purgeEntries dlqLabel name
      KeyValue.delete (queueStatsKey name)

def countEntries (label queueName : Text) : Method Nat := do
  let entries ← scanEntries label queueName
  pure entries.length

def stats (queueName : Text) : Method QueueStats := do
  let available ← countEntries availableLabel queueName
  let inFlight ← countEntries inflightLabel queueName
  let delayed ← countEntries delayedLabel queueName
  let dlqMessages ← countEntries dlqLabel queueName
  let total ← countEntries msgLabel queueName
  pure {
    availableMessages := available
    inFlightMessages := inFlight
    delayedMessages := delayed
    totalMessages := total
    dlqMessages }

/-! ## Messages -/

def enqueue (U : UuidText) (now : Int) (message : QueueMessage) : Method Unit := do
  let config ← getQueue message.queueName
  if config.paused then Exec.lift (.err .queuePaused)
  else do
    KeyValue.set (queueMsgKey U message.queueName message.id) (.message message)
    if message.delayUntil.any fun delayUntil => delayUntil > now then
      KeyValue.set (queueDelayedKey U message.queueName message.id) .empty
    else
      KeyValue.set (queueAvailableKey U message.queueName message.id) .empty

/-- The loop over scanned index keys: `body` is run on every key whose text is an
identifier under which a message is stored. -/
def forEachMessage {α : Type} (U : UuidText) (queueName : Text)
    (body : Bytes → Uuid → QueueMessage → Method (Option α)) : List Bytes → Method (List α)
  | [] => pure []
  | key :: keys =>
    match messageId U key with
    | none => forEachMessage U queueName body keys
    | some msgId => do
        match ← KeyValue.get (queueMsgKey U queueName msgId) with
        | some (.message msg) => do
            let result ← body key msgId msg
            let results ← forEachMessage U queueName body keys
            pure (result.toList ++ results)
        | _ => forEachMessage U queueName body keys

/-- What `dequeue` does with one key. -/
def receive (U : UuidText) (now : Int) (receipts : Bytes → Uuid) (queueName : Text) (key : Bytes)
    (msgId : Uuid) (msg : QueueMessage) : Method (Option QueueMessage) :=
  if msg.isVisible now && !msg.hasExpired now then do
    let msg := msg.markReceived now (U.display (receipts key))
    KeyValue.set (queueMsgKey U queueName msgId) (.message msg)
    KeyValue.delete key
    KeyValue.set (queueInflightKey U queueName msgId) .empty
    pure (some msg)
  else pure none

def dequeue (U : UuidText) (now : Int) (receipts : Bytes → Uuid) (queueName : Text)
    (maxMessages : Nat) : Method (List QueueMessage) := do
  let config ← getQueue queueName
  if config.paused then Exec.lift (.err .queuePaused)
  else do
    let entries ← scanEntries availableLabel queueName
    forEachMessage U queueName (receive U now receipts queueName)
      ((entries.take maxMessages).map Prod.fst)

/-- The receipt handle is read as the identifier of a message. -/
def ack (U : UuidText) (queueName receiptHandle : Text) : Method Unit := do
  match U.parseStr (utf8 receiptHandle) with
  | none => Exec.lift (.err (.invalidReceiptHandle receiptHandle))
  | some msgId => do
      match ← KeyValue.get (queueMsgKey U queueName msgId) with
      | none => Exec.lift (.err (.messageNotFound (U.display msgId)))
      | some _ => do
          KeyValue.delete (queueMsgKey U queueName msgId)
          KeyValue.delete (queueInflightKey U queueName msgId)

def nack (U : UuidText) (now : Int) (queueName receiptHandle : Text) : Method Unit := do
  match U.parseStr (utf8 receiptHandle) with
  | none => Exec.lift (.err (.invalidReceiptHandle receiptHandle))
  | some msgId => do
      match ← KeyValue.get (queueMsgKey U queueName msgId) with
      | none => Exec.lift (.err (.messageNotFound (U.display msgId)))
      | some (.message msg) => do
          let msg := { msg with visibleAt := now, receiptHandle := none }
          KeyValue.set (queueMsgKey U queueName msgId) (.message msg)
          KeyValue.delete (queueInflightKey U queueName msgId)
          KeyValue.set (queueAvailableKey U queueName msgId) .empty
      | some _ => Exec.lift (.err .internal)

def Stored.toMessage : Stored → Option QueueMessage
  | .message msg => some msg
  | _ => none

def peek (queueName : Text) (maxMessages : Nat) : Method (List QueueMessage) := do
  let entries ← scanEntries msgLabel queueName
  pure ((entries.take maxMessages).filterMap fun e => e.2.toMessage)

/-! ## What the scanner calls -/

/-- What `release_expired_messages` does with one key. -/
def release (U : UuidText) (now : Int) (queueName : Text) (key : Bytes) (msgId : Uuid)
    (msg : QueueMessage) : Method (Option Unit) :=
  if msg.visibleAt ≤ now && !msg.hasExpired now then do
    KeyValue.delete key
    KeyValue.set (queueAvailableKey U queueName msgId) .empty
    pure (some ())
  else pure none

def releaseExpiredMessages (U : UuidText) (now : Int) (queueName : Text) : Method Nat := do
  let entries ← scanEntries inflightLabel queueName
  let released ← forEachMessage U queueName (release U now queueName) (entries.map Prod.fst)
  pure released.length

/-- What `move_to_dlq` does with one key. -/
def bury (U : UuidText) (now : Int) (queueName dlqName : Text) (key : Bytes) (msgId : Uuid)
    (msg : QueueMessage) : Method (Option Unit) :=
  if msg.attemptCount ≥ msg.maxReceives && msg.visibleAt ≤ now then do
    let msg := { msg with
      queueName := dlqName, receiptHandle := none, attemptCount := 0, enqueuedAt := now,
      visibleAt := now }
    KeyValue.set (queueMsgKey U dlqName msgId) (.message msg)
    KeyValue.set (queueDlqKey U dlqName msgId) .empty
    KeyValue.delete (queueMsgKey U queueName msgId)
    KeyValue.delete key
    pure (some ())
  else pure none

def moveToDlq (U : UuidText) (now : Int) (queueName : Text) : Method Nat := do
  let config ← getQueue queueName
  match config.dlqName with
  | none => pure 0
  | some dlqName => do
      let entries ← scanEntries inflightLabel queueName
      let moved ← forEachMessage U queueName (bury U now queueName dlqName) (entries.map Prod.fst)
      pure moved.length

/-- The keys `purge_expired_messages` deletes for one entry. -/
def expiredKeys (U : UuidText) (now : Int) (queueName : Text) (entry : Bytes × Stored) : List Bytes :=
  match entry.2 with
  | .message msg =>
    if msg.hasExpired now then
      [entry.1, queueAvailableKey U queueName msg.id, queueInflightKey U queueName msg.id,
        queueDelayedKey U queueName msg.id, queueDlqKey U queueName msg.id]
    else []
  | _ => []

def purgeExpiredMessages (U : UuidText) (now : Int) (queueName : Text) : Method Nat := do
  let entries ← scanEntries msgLabel queueName
  let ops := (entries.flatMap (expiredKeys U now queueName)).map fun key => (key, none)
  if ops.isEmpty then pure () else KeyValue.batch ops
  pure (entries.countP fun e => !(expiredKeys U now queueName e).isEmpty)

/-! ## Calls -/

/-- A call of the backend with everything it reads from outside. -/
inductive QueueCall where
  | createQueue (config : IndividualQueueConfig)
  | updateQueue (config : IndividualQueueConfig)
  | pause (now : Int) (queueName : Text)
  | resume (now : Int) (queueName : Text)
  | deleteQueue (name : Text)
  | enqueue (now : Int) (message : QueueMessage)
  | dequeue (now : Int) (receipts : Bytes → Uuid) (queueName : Text) (maxMessages : Nat)
  | ack (queueName receiptHandle : Text)
  | nack (now : Int) (queueName receiptHandle : Text)
  | purge (queueName : Text)
  | releaseExpiredMessages (now : Int) (queueName : Text)
  | moveToDlq (now : Int) (queueName : Text)
  | purgeExpiredMessages (now : Int) (queueName : Text)

/-- The messages a call hands out; only `dequeue` does. -/
def QueueCall.perform (U : UuidText) : QueueCall → Method (List QueueMessage)
  | .createQueue config => do
      Queue.createQueue config
      pure []
  | .updateQueue config => do
      Queue.updateQueue config
      pure []
  | .pause now queueName => do
      Queue.pause now queueName
      pure []
  | .resume now queueName => do
      Queue.resume now queueName
      pure []
  | .deleteQueue name => do
      Queue.deleteQueue name
      pure []
  | .enqueue now message => do
      Queue.enqueue U now message
      pure []
  | .dequeue now receipts queueName maxMessages =>
    Queue.dequeue U now receipts queueName maxMessages
  | .ack queueName receiptHandle => do
      Queue.ack U queueName receiptHandle
      pure []
  | .nack now queueName receiptHandle => do
      Queue.nack U now queueName receiptHandle
      pure []
  | .purge queueName => do
      Queue.purge queueName
      pure []
  | .releaseExpiredMessages now queueName => do
      let _ ← Queue.releaseExpiredMessages U now queueName
      pure []
  | .moveToDlq now queueName => do
      let _ ← Queue.moveToDlq U now queueName
      pure []
  | .purgeExpiredMessages now queueName => do
      let _ ← Queue.purgeExpiredMessages U now queueName
      pure []

/-- The store after a call. -/
def QueueCall.step (U : UuidText) (kv : KeyValue Stored) (call : QueueCall) : KeyValue Stored :=
  (call.perform U kv).2

end NovaRuntime.Queue
