/-
Sizes that an engine runs with.

* `Config.standard` — pages of 4096 bytes and 50 page buffers;
* `Config.bytes` — the bytes of a configuration.
-/
import RelStore.Codec.Record

namespace RelStore

/-- The bytes of a page and the number of page buffers. -/
structure Config where
  pageSize : Nat
  poolSize : Nat
deriving DecidableEq, Repr, Inhabited

namespace Config

/-- The sizes that are used when none are given. -/
def standard : Config := ⟨4096, 50⟩

/-- The configuration with another page size. -/
def withPageSize (c : Config) (n : Nat) : Config :=
  { c with pageSize := n }

/-- The configuration with another number of page buffers. -/
def withPoolSize (c : Config) (n : Nat) : Config :=
  { c with poolSize := n }

/-- The bytes of a configuration: both numbers in order. -/
def bytes (c : Config) : List UInt8 :=
  Varint.write c.pageSize ++ Varint.write c.poolSize

end Config

end RelStore
