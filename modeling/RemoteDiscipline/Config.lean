import RemoteDiscipline.Info
import RemoteDiscipline.Text.Blank
import RemoteDiscipline.Text.Natural
import RemoteDiscipline.Text.Quoted
/-!
Configuration of clients and servers, with defaults. A client takes overrides from its environment.
-/

namespace RemoteDiscipline

/-- The largest frame that is accepted by default: 64 MiB. -/
def defaultMaxFrameBytes : Nat := 64 * 1024 * 1024

structure ClientConfig where
  /-- The time given to every call, from connecting to the last answer. -/
  timeout : Duration := 60000
  /-- How many values one chunk carries. -/
  chunkSize : Nat := defaultChunkSize
  /-- The largest frame accepted from a server. -/
  maxFrameBytes : Nat := defaultMaxFrameBytes
  deriving DecidableEq, Inhabited

namespace ClientConfig

def timeoutSetting : String := "PHILOTE_RPC_TIMEOUT_MS"

def chunkSizeSetting : String := "PHILOTE_CHUNK_SIZE"

/-- A number from the environment, or nothing when it is not set. Blanks around it do not count. -/
def setting (environment : String → Option String) (name : String) : Except Error (Option Nat) :=
  match environment name with
  | none => .ok none
  | some raw =>
    match Text.readNatural (Text.strip raw.toList) with
    | .ok n => .ok (some n)
    | .error fault => .error (.config s!"{name}={Text.quote raw}: {fault.text}")

def ofEnvironment (environment : String → Option String) : Except Error ClientConfig := do
  let timeout ← setting environment timeoutSetting
  let chunkSize ← setting environment chunkSizeSetting
  let config : ClientConfig := {}
  let config := match timeout with
    | some t => { config with timeout := t }
    | none => config
  match chunkSize with
  | some size => return { config with chunkSize := ← checkChunkSize size }
  | none => return config

end ClientConfig

/-- Whether compute calls on one discipline may overlap. -/
inductive Concurrency
  | concurrent
  | serialized
  deriving DecidableEq, Inhabited

structure ServerConfig where
  listenAddress : String := "127.0.0.1:50051"
  concurrency : Concurrency := .concurrent
  /-- Buffered messages per direction of a call. -/
  channelCapacity : Nat := 256
  /-- The largest frame accepted from a client. -/
  maxFrameBytes : Nat := defaultMaxFrameBytes
  deriving Inhabited

structure Limits where
  channelCapacity : Nat
  maxFrameBytes : Nat
  deriving DecidableEq, Inhabited

/-- The limits of a server's connections. A call can always buffer one message. -/
def ServerConfig.limits (config : ServerConfig) : Limits :=
  ⟨max 1 config.channelCapacity, config.maxFrameBytes⟩

end RemoteDiscipline
