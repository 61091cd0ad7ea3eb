import Mathlib.Data.List.Sort
import Renterd.Stores.Objects

/-!
# Listing objects by path

`Objects(path)` selects the object ids `LIKE path || '%'`, cuts `len(path) + 1` off the front of
each with `SUBSTR`, and keeps of the rest everything up to its first `/` with `INSTR` and
`substr`, grouped into distinct results. The SQL is SQLite's: `LIKE` without `ESCAPE` takes `%`
and `_` in the path as wildcards and ASCII letters in either case, and `SUBSTR` and `INSTR` count
characters, where Go's `len(path)` counts the bytes of the UTF-8 text. SQLite's `GROUP BY` sorts
the results under the `BINARY` collation and returns the groups in that order.
-/

namespace Renterd.Stores

namespace SQLite

/-- `LIKE` without `ESCAPE`: `%` matches any run of characters, `_` any one character, and an
ASCII letter either case of itself. -/
def like : List Char → List Char → Bool
  | [], text => text.isEmpty
  | '%' :: pattern, text => text.tails.any (like pattern)
  | '_' :: pattern, text =>
      match text with
      | [] => false
      | _ :: rest => like pattern rest
  | c :: pattern, text =>
      match text with
      | [] => false
      | d :: rest => c.toLower == d.toLower && like pattern rest

/-- `substr(x, start)` and `substr(x, start, count)` for `start ≥ 0`: characters count from `1`,
and a start of `0` lies before the first character, so the count takes one character less. -/
def substr (x : List Char) (start : Nat) (count : Option Nat) : List Char :=
  let rest := x.drop (start - 1)
  match count with
  | none => rest
  | some count => rest.take (if start = 0 then count - 1 else count)

/-- The `BINARY` collation: texts compared by the `memcmp` of their UTF-8 bytes, which orders them
as the code points of their characters do. -/
def binaryLE : List Char → List Char → Bool
  | [], _ => true
  | _ :: _, [] => false
  | c :: a, d :: b => decide (c.toNat < d.toNat) || decide (c.toNat = d.toNat) && binaryLE a b

/-- `instr(x, c)` for one character: the position of its first occurrence from `1`, or `0`. -/
def instr (x : List Char) (c : Char) : Nat :=
  match x.findIdx? (· == c) with
  | some i => i + 1
  | none => 0

end SQLite

/-- The `result` of one selected object id: `CASE slashindex WHEN 0 THEN path || trimmed ELSE
path || substr(trimmed, 0, slashindex + 1) END`. -/
def listingResult (path id : String) : String :=
  let trimmed := SQLite.substr id.data (path.utf8ByteSize + 1) none
  match SQLite.instr trimmed '/' with
  | 0 => path ++ ⟨trimmed⟩
  | slashindex => path ++ ⟨SQLite.substr trimmed 0 (some (slashindex + 1))⟩

/-- `Objects`: a panic unless the path ends in `/` (`strings.HasSuffix` of one ASCII byte is the
last character); then the distinct results of the ids that are `LIKE path || '%'`, one per group,
in the sorted order of the groups. -/
def SQLStore.Objects (store : SQLStore) (path : String) : Except Failure (List String) :=
  if path.data.getLast? = some '/' then
    .ok (((store.objects.rows.filter fun row => SQLite.like (path ++ "%").data row.2.objectId.data).map
      fun row => listingResult path row.2.objectId).dedup.insertionSort
        fun a b => SQLite.binaryLE a.data b.data)
  else .error (.panic "path must end in /")

/-! ## The listing the spec describes -/

/-- `r` up to and including its first `/`, or all of `r`. -/
def segment (rest : List Char) : List Char :=
  match rest.findIdx? (· == '/') with
  | some i => rest.take (i + 1)
  | none => rest

/-- The distinct `path ++ seg(r)` for the stored ids `path ++ r`, the prefix compared character
by character. -/
def listingSpec (ids : List String) (path : String) : List String :=
  (ids.filterMap fun id =>
    if path.data.isPrefixOf id.data then some (path ++ ⟨segment (id.data.drop path.length)⟩)
    else none).dedup

/-! ## When the query lists the spec's segments -/

/-- An object with no slabs. -/
def noSlabs : Stores.Object UInt8 := ⟨5, []⟩

namespace SQLite

end SQLite

/-- Written as `a/z` and then `a/b/x`, the objects under `a/` list in the sorted order of their
groups, `a/b/` before `a/z`. -/
example : ∃ store, SQLStore.empty.UpdateObject byteCodec "a/z" noSlabs usedSeven = .ok store ∧
    ∃ store', store.UpdateObject byteCodec "a/b/x" noSlabs usedSeven = .ok store' ∧
      store'.Objects "a/" = .ok ["a/b/", "a/z"] :=
  ⟨_, rfl, _, rfl, rfl⟩

/-! ## Paths the query does not match as prefixes -/

/-- Three listings that differ from the spec's. Under `a/` the query lists `A/x` as `a/x`, as
`LIKE` ignores the case of ASCII letters; under `_/` it lists `a/b` as `_/b`, as `_` matches any
character; and under `é/`, three bytes long, it cuts three characters off `é/ab` and lists
`é/b`. -/
theorem Objects_not_prefix :
    (∃ store, SQLStore.empty.UpdateObject byteCodec "A/x" noSlabs usedSeven = .ok store ∧
      store.Objects "a/" = .ok ["a/x"] ∧ listingSpec ["A/x"] "a/" = []) ∧
    (∃ store, SQLStore.empty.UpdateObject byteCodec "a/b" noSlabs usedSeven = .ok store ∧
      store.Objects "_/" = .ok ["_/b"] ∧ listingSpec ["a/b"] "_/" = []) ∧
    (∃ store, SQLStore.empty.UpdateObject byteCodec "é/ab" noSlabs usedSeven = .ok store ∧
      store.Objects "é/" = .ok ["é/b"] ∧ listingSpec ["é/ab"] "é/" = ["é/ab"]) :=
  ⟨⟨_, rfl, rfl, rfl⟩, ⟨_, rfl, rfl, rfl⟩, ⟨_, rfl, rfl, rfl⟩⟩

end Renterd.Stores
