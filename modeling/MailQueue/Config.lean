import MailQueue.Text.Blank
import MailQueue.Value.Reading

/-!
# Settings

The settings of a queue, their defaults, the check of their ranges and their persisted form.

* `Config.validate` reports the first setting out of range, in the order of the settings;
* `Config.ofValue` reads a partial form; an unknown setting is refused, but not one of the group
  `concat`.
-/

namespace MailQueue

/-- Whether this process sends, or only takes mail in. -/
inductive Mode where
  | producer
  | producerConsumer
  deriving DecidableEq, Repr

inductive Strategy where
  /-- Stay with a transport until it has failed too often. -/
  | backup
  /-- Each attempt takes the next transport. -/
  | balancer
  deriving DecidableEq, Repr

/-- The merging of mails to one recipient. -/
structure Concat where
  enabled : Bool := false
  delayMs : UInt64 := 60000
  delimiter : String := "<hr>"
  subject : String := "Multiple notifications"
  deriving DecidableEq, Repr

structure Config where
  /-- The name under which tasks and ticks are kept apart from those of other queues. -/
  scope : String := "default"
  mode : Mode := .producerConsumer
  maxAttempts : UInt32 := 60
  retryDelayMs : UInt64 := 60000
  backoff : Float := 1
  tickIntervalMs : UInt64 := 1536
  tickConcurrency : Nat := 1
  /-- The outer template of a body. -/
  template : String := "\x7b\x7b\x7bhtml\x7d\x7d\x7d"
  concat : Concat := {}
  strategy : Strategy := .backup
  failsToNext : UInt32 := 4
  keepHistory : Bool := false
  /-- The sender of a message that names none. -/
  sender : Option String := none
  deriving Inhabited

/-- Why settings cannot be used. -/
inductive ConfigError where
  | emptyScope
  | noAttempts
  | zeroRetryDelay
  | badBackoff
  | zeroTickInterval
  | zeroConcurrency
  | zeroFailsToNext
  | noStore
  | noTransport
  | concatDelay
  /-- The text holds no settings. -/
  | unreadable
  deriving DecidableEq, Repr

def ConfigError.message (e : ConfigError) : String :=
  "configuration error: " ++ match e with
    | emptyScope => "`prefix` must not be empty"
    | noAttempts => "`max_attempts` must be at least 1"
    | zeroRetryDelay => "`retry_delay_ms` must be greater than zero"
    | badBackoff => "`backoff_multiplier` must be a finite number >= 1.0"
    | zeroTickInterval => "`tick_interval_ms` must be greater than zero"
    | zeroConcurrency => "`tick_concurrency` must be at least 1"
    | zeroFailsToNext => "`fails_to_next` must be at least 1"
    | noStore => "a storage adapter is required"
    | noTransport => "at least one transport is required in producer_consumer mode"
    | concatDelay =>
      "concat delay out of range: Source duration value is out of range for the target type"
    | unreadable => "invalid TOML"

namespace Mode

def names : List (String × Mode) :=
  [("producer", producer), ("producer_consumer", producerConsumer)]

def name : Mode → String
  | producer => "producer"
  | producerConsumer => "producer_consumer"

def isConsumer : Mode → Bool
  | producer => false
  | producerConsumer => true

end Mode

namespace Strategy

def names : List (String × Strategy) := [("backup", backup), ("balancer", balancer)]

def name : Strategy → String
  | backup => "backup"
  | balancer => "balancer"

/-- The name of a strategy in a diagnostic. -/
def label : Strategy → String
  | backup => "Backup"
  | balancer => "Balancer"

end Strategy

namespace Concat

def keys : List String := ["enabled", "delay_ms", "delimiter", "subject"]

def toValue (c : Concat) : Value :=
  .object [("enabled", .bool c.enabled), ("delay_ms", .nat c.delayMs.toNat),
    ("delimiter", .text c.delimiter), ("subject", .text c.subject)]

/-- Reads a partial form; unknown keys are passed over. -/
def ofValue (v : Value) : Except ReadError Concat := do
  let es ← Reading.record keys keys.length v
  return {
    enabled := ← Reading.withDefault Reading.flag false es "enabled"
    delayMs := ← Reading.withDefault Reading.word64 60000 es "delay_ms"
    delimiter := ← Reading.withDefault Reading.text "<hr>" es "delimiter"
    subject := ← Reading.withDefault Reading.text "Multiple notifications" es "subject" }

end Concat

namespace Config

/-- The first setting out of range. -/
def fault? (c : Config) : Option ConfigError :=
  if Text.allBlank c.scope then some .emptyScope
  else if c.maxAttempts = 0 then some .noAttempts
  else if c.retryDelayMs = 0 then some .zeroRetryDelay
  else if !c.backoff.isFinite || c.backoff < 1 then some .badBackoff
  else if c.tickIntervalMs = 0 then some .zeroTickInterval
  else if c.tickConcurrency = 0 then some .zeroConcurrency
  else if c.failsToNext = 0 then some .zeroFailsToNext
  else none

/-- Checks the ranges of the settings. -/
def validate (c : Config) : Except ConfigError Unit :=
  match c.fault? with
  | some e => .error e
  | none => .ok ()

theorem maxAttempts_pos_of_validate {c : Config} (h : c.validate = .ok ()) : 0 < c.maxAttempts := by
  have hne : c.maxAttempts ≠ 0 := by
    intro h0
    unfold validate fault? at h
    rw [if_pos h0] at h
    split at h
    · cases h
    · next hf => split at hf <;> cases hf
  exact UInt32.pos_iff_ne_zero.2 hne

theorem failsToNext_pos_of_fault? {c : Config} (h : c.fault? = none) :
    0 < c.failsToNext.toNat := by
  have hne : c.failsToNext ≠ 0 := by
    intro h0
    unfold fault? at h
    rw [if_pos h0] at h
    repeat' split at h
    all_goals cases h
  have := UInt32.pos_iff_ne_zero.2 hne
  exact UInt32.lt_iff_toNat_lt.1 this

theorem retryDelayMs_pos_of_fault? {c : Config} (h : c.fault? = none) :
    0 < c.retryDelayMs.toNat := by
  have hne : c.retryDelayMs ≠ 0 := by
    intro h0
    unfold fault? at h
    rw [if_pos h0] at h
    repeat' split at h
    all_goals cases h
  have := UInt64.pos_iff_ne_zero.2 hne
  exact UInt64.lt_iff_toNat_lt.1 this

def keys : List String :=
  ["prefix", "mode", "max_attempts", "retry_delay_ms", "backoff_multiplier", "tick_interval_ms",
    "tick_concurrency", "template", "concat", "strategy", "fails_to_next", "keep_history", "from"]

def toValue (c : Config) : Value :=
  .object [
    ("prefix", .text c.scope), ("mode", .text c.mode.name),
    ("max_attempts", .nat c.maxAttempts.toNat), ("retry_delay_ms", .nat c.retryDelayMs.toNat),
    ("backoff_multiplier", .float c.backoff), ("tick_interval_ms", .nat c.tickIntervalMs.toNat),
    ("tick_concurrency", .nat c.tickConcurrency), ("template", .text c.template),
    ("concat", c.concat.toValue), ("strategy", .text c.strategy.name),
    ("fails_to_next", .nat c.failsToNext.toNat), ("keep_history", .bool c.keepHistory),
    ("from", .ofText? c.sender)]

/-- Reads a partial form; what is absent keeps its default. -/
def ofValue (v : Value) : Except ReadError Config := do
  let es ← Reading.record keys keys.length v
  match es.find? fun e => decide (e.1 ∉ keys) with
  | some e => throw (.unknown e.1)
  | none => pure ()
  return {
    scope := ← Reading.withDefault Reading.text "default" es "prefix"
    mode := ← Reading.withDefault (Reading.variant Mode.names) .producerConsumer es "mode"
    maxAttempts := ← Reading.withDefault Reading.word32 60 es "max_attempts"
    retryDelayMs := ← Reading.withDefault Reading.word64 60000 es "retry_delay_ms"
    backoff := ← Reading.withDefault Reading.float 1 es "backoff_multiplier"
    tickIntervalMs := ← Reading.withDefault Reading.word64 1536 es "tick_interval_ms"
    tickConcurrency := ← Reading.withDefault (Reading.below UInt64.size) 1 es "tick_concurrency"
    template :=
      ← Reading.withDefault Reading.text "\x7b\x7b\x7bhtml\x7d\x7d\x7d" es "template"
    concat := ← Reading.withDefault Concat.ofValue {} es "concat"
    strategy := ← Reading.withDefault (Reading.variant Strategy.names) .backup es "strategy"
    failsToNext := ← Reading.withDefault Reading.word32 4 es "fails_to_next"
    keepHistory := ← Reading.withDefault Reading.flag false es "keep_history"
    sender := ← Reading.optional Reading.text es "from" }

end Config

end MailQueue
