import Lokinet.Lib.StdSet
import Lokinet.Net.IPRange

/-!
`net::IPRangeMap` (llarp/net/ip_range_map.hpp): a vector of range and value pairs.
`FindAllEntries` collects the pairs whose range contains an address into a `std::set` of pairs,
ordered by `std::pair`'s `operator<`: the ranges by `IPRange::operator<`, then the values.
-/

namespace Lokinet.Net

structure IPRangeMap (V : Type) where
  entries : List (IPRange × V)

namespace IPRangeMap

variable {V : Type}

def empty : IPRangeMap V := ⟨[]⟩

/-- `Insert`: `emplace_back`. -/
def insert (m : IPRangeMap V) (range : IPRange) (val : V) : IPRangeMap V := ⟨m.entries ++ [(range, val)]⟩

/-- `std::pair`'s `operator<` over `IPRange::operator<` and the values' `operator<`. -/
def entryLt (ltV : V → V → Bool) (a b : IPRange × V) : Bool :=
  IPRange.lt a.1 b.1 || (!IPRange.lt b.1 a.1 && ltV a.2 b.2)

/-- `FindAllEntries`: the entries whose range contains `addr`, inserted into the set in the
order of the vector. -/
def findAllEntries (ltV : V → V → Bool) (m : IPRangeMap V) (addr : BitVec 128) : List (IPRange × V) :=
  StdSet.ofList (entryLt ltV) (m.entries.filter fun e => e.1.contains addr)

end IPRangeMap

end Lokinet.Net
