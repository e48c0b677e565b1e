import DnsGate.Dns.Name
import DnsGate.Net.Address

/-!
Resource records and the data that the known types carry.  Data of any other type is a string of
bytes, and every type may come without data.
-/

namespace DnsGate.Dns

/-! ## Types -/

/-- The number of a record or question type. -/
abbrev RType := UInt16

namespace RType

def a : RType := 1
def ns : RType := 2
def cname : RType := 5
def soa : RType := 6
def ptr : RType := 12
def mx : RType := 15
def txt : RType := 16
def aaaa : RType := 28
def srv : RType := 33
def opt : RType := 41
def ixfr : RType := 251
def axfr : RType := 252
def any : RType := 255

end RType

/-- The class of internet records. -/
def internet : UInt16 := 1

/-! ## Data -/

/-- The numbers of a start of authority. -/
structure ZoneTimes where
  serial : UInt32
  refresh : UInt32
  retry : UInt32
  expire : UInt32
  minimum : UInt32
deriving DecidableEq, Repr

/-- The data of a record. -/
inductive RData where
  /-- No data, which every type may have. -/
  | none
  | a (ip : Net.Ipv4)
  | aaaa (ip : Net.Ipv6)
  /-- A name alone: name servers, aliases, pointers. -/
  | name (target : Name)
  | mx (preference : UInt16) (exchange : Name)
  | srv (priority weight service : UInt16) (target : Name)
  | soa (primary contact : Name) (times : ZoneTimes)
  | txt (strings : List Bytes)
  /-- Data that is kept as it is. -/
  | raw (bytes : Bytes)
deriving DecidableEq, Repr

/-- A resource record. -/
structure Record where
  name : Name
  type : RType
  «class» : UInt16
  ttl : UInt32
  data : RData
deriving DecidableEq, Repr

/-- The address that a record carries. -/
def Record.address? (r : Record) : Option Net.Ip :=
  match r.data with
  | .a ip => some (.v4 ip)
  | .aaaa ip => some (.v6 ip)
  | _ => none

/-- The record that gives a name an IPv4 address. -/
def Record.ofIpv4 (name : Name) (ttl : UInt32) (ip : Net.Ipv4) : Record :=
  ⟨name, RType.a, internet, ttl, .a ip⟩

end DnsGate.Dns
