import DnsGate.Binary.Width
import DnsGate.Settings.Basic
import DnsGate.Toml.Reader

/-!
Settings from documents.  A part may be a table, whose unknown keys are ignored, or a list of its
fields in order.  A field that is missing has its default, but the names of the IP sets must be
there in a list.
-/

namespace DnsGate.Settings

open Toml (Node Entries Document)

/-! ## Values -/

/-- Readers of values; `none` for a value of another type. -/
abbrev Decoder (α : Type) := Node → Option α

def Decoder.text : Decoder String := fun n =>
  match n.scalar? with
  | some (.text s) => some s
  | _ => none

def Decoder.boolean : Decoder Bool := fun n =>
  match n.scalar? with
  | some (.boolean b) => some b
  | _ => none

/-- An integer that fits. -/
def Decoder.integer (fits : Int → Bool) : Decoder Int := fun n =>
  match n.scalar? with
  | some (.integer i) => if fits i then some i else none
  | _ => none

/-- A natural number below a bound. -/
def Decoder.natural (bound : Nat) : Decoder Nat := fun n =>
  (Decoder.integer (fun i => decide (0 ≤ i ∧ i < bound)) n).map Int.toNat

def Decoder.texts : Decoder (List String) := fun n => n.elements?.bind (·.mapM Decoder.text)

/-! ## Records -/

/-- The fields of a part: by name, or by place. -/
inductive Fields where
  | named (entries : Entries)
  | placed (items : List Node)

/-- The fields that a value holds. -/
def Fields.of? (n : Node) : Option Fields :=
  match n.entries?, n.elements? with
  | some es, _ => some (.named es)
  | none, some items => some (.placed items)
  | none, none => none

def Fields.find? (f : Fields) (place : Nat) (name : String) : Option Node :=
  match f with
  | named es => es.find? name
  | placed items => items[place]?

/-- A field with a default. -/
def Fields.get {α : Type} (f : Fields) (place : Nat) (name : String) (d : Decoder α)
    (default : α) : Option α :=
  match f.find? place name with
  | some n => d n
  | none => some default

/-- A field that is nothing when a table does not name it. -/
def Fields.get? {α : Type} (f : Fields) (place : Nat) (name : String) (d : Decoder α) :
    Option (Option α) :=
  match f.find? place name, f with
  | some n, _ => (d n).map some
  | none, named _ => some none
  | none, placed _ => none

/-! ## Parts -/

def Decoder.server : Decoder Server := fun n => do
  let f ← Fields.of? n
  return {
    listen := ← f.get 0 "listen" Decoder.texts ({} : Server).listen
    api := ← f.get 1 "api_listen" (fun n => (Decoder.text n).map some) ({} : Server).api }

def Decoder.logging : Decoder Logging := fun n => do
  let f ← Fields.of? n
  return { level := ← f.get 0 "level" Decoder.text ({} : Logging).level }

def Decoder.forwarding : Decoder Forwarding := fun n => do
  let f ← Fields.of? n
  return {
    servers := ← f.get 0 "upstream_servers" Decoder.texts ({} : Forwarding).servers
    timeout :=
      ← f.get 1 "timeout_secs" (Decoder.natural (Width.capacity 64)) ({} : Forwarding).timeout }

def Decoder.ipSets : Decoder IpSets := fun n => do
  let f ← Fields.of? n
  return {
    ipv4 := ← f.get? 0 "ipv4_name" Decoder.text
    ipv6 := ← f.get? 1 "ipv6_name" Decoder.text
    timeout :=
      ← f.get 2 "default_timeout_secs" (Decoder.natural (Width.capacity 32)) ({} : IpSets).timeout }

def Decoder.rules : Decoder RuleLists := fun n => do
  let f ← Fields.of? n
  return {
    domains := ← f.get 0 "domains" Decoder.texts []
    suffixes := ← f.get 1 "suffixes" Decoder.texts [] }

def Decoder.blocking : Decoder Blocking := fun n => do
  let f ← Fields.of? n
  return {
    enabled := ← f.get 0 "enabled" Decoder.boolean ({} : Blocking).enabled
    sources := ← f.get 1 "urls" Decoder.texts []
    refreshHours :=
      ← f.get 2 "refresh_hours" (Decoder.integer Width.fits64) ({} : Blocking).refreshHours }

/-! ## All settings -/

/-- The settings that a document holds. -/
def ofDocument? (d : Document) : Option Settings := do
  let f := Fields.named d.root
  return {
    server := ← f.get 0 "server" Decoder.server {}
    logging := ← f.get 1 "logging" Decoder.logging {}
    forwarding := ← f.get 2 "dns" Decoder.forwarding {}
    ipSets := ← f.get 3 "ipset" Decoder.ipSets {}
    rules := ← f.get 4 "rules" Decoder.rules {}
    blocking := ← f.get 5 "blocklist" Decoder.blocking {} }

/-- The settings that a file holds.  No integer in it may exceed 128 bits. -/
def parse? (file : String) : Option Settings := do
  let d ← Document.parse? file
  if d.integersAll Width.fits128 then Settings.ofDocument? d else none

end DnsGate.Settings
