import FormSchema.Datum.Value

/-!
# Keys and members

Which data can be keys of a mapping or members of a set, and which of them are the same key.  A
number is the same key as any equal number, whatever its kind, and a member of an enumeration the
same as the word or number that it stands for.
-/

namespace FormSchema.Datum

mutual

/-- The kind of the first part of a datum for which it can be no key and no member of a set. -/
def mutableKind? : Datum → Option Text
  | list items => some (list items).kindName
  | set items => some (set items).kindName
  | mapping es => some (mapping es).kindName
  | view es => some (view es).kindName
  | tuple items => mutableKindOfItems? items
  | record _ _ fields => mutableKindOfFields? fields
  | _ => none

/-- The kind of the first such part among some items. -/
def mutableKindOfItems? : List Datum → Option Text
  | [] => none
  | d :: rest =>
    match mutableKind? d with
    | some kind => some kind
    | none => mutableKindOfItems? rest

/-- The kind of the first such part among some fields. -/
def mutableKindOfFields? : List (Text × Datum) → Option Text
  | [] => none
  | (_, d) :: rest =>
    match mutableKind? d with
    | some kind => some kind
    | none => mutableKindOfFields? rest

end

/-- The integer that a datum equals. -/
def integer? : Datum → Option Int
  | bool b => some (if b then 1 else 0)
  | int n => some n
  | numberMember _ _ n => some n
  | float x => x.toInt?
  | _ => none

def word? : Datum → Option Text
  | str s => some s
  | wordMember _ _ word => some word
  | _ => none

/-- Whether two data without parts are the same key. -/
def sameScalar (a b : Datum) : Bool :=
  -- numbers are compared with members of number enumerations, and words likewise
  match integer? a, integer? b, word? a, word? b with
  | some m, some n, _, _ => m = n
  | _, _, some s, some t => s = t
  | none, none, none, none =>
    match a, b with
    | null, null => true
    | float x, float y => x.sameNumber y
    | octets x, octets y => x = y
    | path p, path q => p = q
    | typeName s, typeName t => s = t
    | _, _ => false
  | _, _, _, _ => false

mutual

/-- Whether two data are the same key. -/
def sameKey : Datum → Datum → Bool
  | tuple xs, b =>
    match b with
    | tuple ys => sameItems xs ys
    | _ => false
  | frozenSet xs, b =>
    match b with
    | frozenSet ys => xs.length = ys.length && allAmong ys xs
    | _ => false
  | record t _ fs, b =>
    match b with
    | record u _ gs => t = u && sameFields fs gs
    | _ => false
  | a, b => sameScalar a b

/-- Whether two lists have the same keys at the same places. -/
def sameItems : List Datum → List Datum → Bool
  | [], ys => ys.isEmpty
  | x :: xs, ys =>
    match ys with
    | [] => false
    | y :: ys => sameKey x y && sameItems xs ys

/-- Whether each of some data is the same key as one among others. -/
def allAmong (others : List Datum) : List Datum → Bool
  | [] => true
  | x :: xs => others.any (sameKey x) && allAmong others xs

/-- Whether two records have the same keys in their fields. -/
def sameFields : List (Text × Datum) → List (Text × Datum) → Bool
  | [], gs => gs.isEmpty
  | (_, v) :: fs, gs =>
    match gs with
    | [] => false
    | (_, w) :: gs => sameKey v w && sameFields fs gs

end

/-- Entries with a value under a key: in the place of the entry with the same key, which keeps its
key, or at the end. -/
def putEntry (key value : Datum) : List (Datum × Datum) → List (Datum × Datum)
  | [] => [(key, value)]
  | (k, v) :: rest =>
    if sameKey k key then (k, value) :: rest else (k, v) :: putEntry key value rest

/-- The mapping that some pairs make. -/
def ofPairs (pairs : List (Datum × Datum)) : Datum :=
  mapping (pairs.foldl (fun es p => putEntry p.1 p.2 es) [])

end FormSchema.Datum
