import FCache.CacheMap
import FCache.PlainStore

/-!
# The bytes of a cached value

A typed value is stored in exactly one way: the tag, the alternative, the extractor and the bytes
follow from it. The storing functions write these bytes, each inside the vector it has resized,
and the extractors read them back as the reply shows the value.
-/

namespace FCache

namespace TypedValue

def storedScalars {α : Type} (encode : α → List UInt8) (xs : List α) (type : FlexType)
    (extract : ExtractVectorF) : CachedValue :=
  .ofVector ⟨(xs.map encode).flatten, some extract, type⟩

/-- The cached value a typed value is kept as. -/
def stored : TypedValue → CachedValue
  | .int v => .ofFixed ⟨.int v, .extractInt⟩
  | .uint v => .ofFixed ⟨.uint v, .extractUInt⟩
  | .bool v => .ofFixed ⟨.bool v, .extractBool⟩
  | .float v => .ofFixed ⟨.float v, .extractFloat⟩
  | .string s => .ofVector ⟨s.1 ++ [0], some .extractString, .string⟩
  | .blob b => .ofVector ⟨Buffer.encode 4 b.1.length ++ b.1, some .extractBlob, .blob⟩
  | .vectorInt xs => storedScalars encodeInt xs .vectorInt .extractIntV
  | .vectorUInt xs => storedScalars encodeUInt xs .vectorUInt .extractUIntV
  | .vectorFloat xs => storedScalars encodeFloat xs .vectorFloat .extractFloatV
  | .vectorBool xs => storedScalars encodeBool xs .vectorBool .extractBoolV
  | .vectorKey xs =>
    .ofVector ⟨(xs.map fun s => s.1 ++ [0]).flatten, some .extractStringV, .vectorKey⟩

end TypedValue

/-! ### The codecs -/

theorem decodeInt_encodeInt (v : Int64) : decodeInt (encodeInt v) = .int v := by
  have hlt : v.toUInt64.toNat < 256 ^ 8 := v.toUInt64.toNat_lt
  unfold decodeInt encodeInt
  rw [Buffer.decode_encode_of_lt hlt, UInt64.ofNat_toNat]
  simp

theorem decodeUInt_encodeUInt (v : UInt64) : decodeUInt (encodeUInt v) = .uint v := by
  have hlt : v.toNat < 256 ^ 8 := v.toNat_lt
  unfold decodeUInt encodeUInt
  rw [Buffer.decode_encode_of_lt hlt, UInt64.ofNat_toNat]

theorem decodeFloat_encodeFloat (v : FcFloat) : decodeFloat (encodeFloat v) = .float v := by
  have hlt : v.bits.toNat < 256 ^ 4 := v.bits.toNat_lt
  unfold decodeFloat encodeFloat
  rw [Buffer.decode_encode_of_lt hlt, UInt32.ofNat_toNat]

theorem length_encodeBool (v : Bool) : (encodeBool v).length = 1 := rfl

theorem decodeBool_encodeBool (v : Bool) : decodeBool (encodeBool v) = .bool v := by
  cases v <;> rfl

namespace CacheMap

open Cpp

/-! ### Extracting what was stored -/

section Extract

variable {σ : Type} (s : σ)

theorem toTypedVector_encode {α : Type} {encode : α → List UInt8} {decode : List UInt8 → FlexScalar}
    {scalar : α → FlexScalar} {width : ℕ} (hwidth : 0 < width)
    (hlen : ∀ v, (encode v).length = width) (hcodec : ∀ v, decode (encode v) = scalar v)
    (xs : List α) :
    toTypedVector width decode (xs.map encode).flatten s =
      .ok (.typedVector (xs.map scalar)) s := by
  have hfields : ∀ field ∈ xs.map encode, field.length = width := by
    intro field hf
    obtain ⟨v, _, rfl⟩ := List.mem_map.mp hf
    exact hlen v
  have hfuel : (xs.map encode).length ≤ (xs.map encode).flatten.length := by
    rw [List.length_map]
    clear hfields
    induction xs with
    | nil => simp
    | cons v xs ih =>
      have := hlen v
      simp only [List.length_cons, List.map_cons, List.flatten_cons, List.length_append]
      omega
  have hread := Buffer.readFields_flatten hwidth hfields hfuel []
  have hmap : (xs.map encode).map decode = xs.map scalar := by
    rw [List.map_map]
    exact List.map_congr_left fun v _ => hcodec v
  unfold toTypedVector
  simp only [List.nil_append, List.length_nil] at hread
  rw [hread]
  simp only [ofOption_some, bind_apply, pure_apply, ok_bind]
  rw [hmap]

theorem extractString_stored (str : Key) :
    extractString (str.1 ++ [0]) s = .ok (.scalar (.string str.1)) s := by
  have hread := Buffer.readString_append str.2 [] []
  simp only [List.nil_append, List.length_nil] at hread
  unfold extractString
  rw [hread]
  rfl

theorem extractBlob_stored (b : Blob) :
    extractBlob (Buffer.encode 4 b.1.length ++ b.1) s = .ok (.blob b.1) s := by
  have hlt : b.1.length < 256 ^ 4 := b.2
  have hsize := Buffer.read_append [] (Buffer.encode 4 b.1.length) b.1
  have hblob := Buffer.read_append (Buffer.encode 4 b.1.length) b.1 []
  simp only [List.nil_append, List.append_nil, List.length_nil, Buffer.length_encode]
    at hsize hblob
  unfold extractBlob
  rw [hsize]
  simp only [ofOption_some, bind_apply, pure_apply, ok_bind]
  rw [Buffer.decode_encode_of_lt hlt, hblob]
  rfl

theorem extractStringV_stored (xs : List Key) :
    extractStringV (xs.map fun x => x.1 ++ [0]).flatten s =
      .ok (.typedVector (xs.map fun x => .string x.1)) s := by
  have hs : ∀ str ∈ xs.map Subtype.val, (0 : UInt8) ∉ str := by
    intro str hmem
    obtain ⟨x, _, rfl⟩ := List.mem_map.mp hmem
    exact x.2
  have hflat : (xs.map fun x => x.1 ++ [0]) = (xs.map Subtype.val).map (· ++ [0]) := by
    rw [List.map_map]
    rfl
  have hfuel : (xs.map Subtype.val).length ≤
      ((xs.map Subtype.val).map (· ++ [0])).flatten.length := by
    clear hs hflat
    induction xs with
    | nil => simp
    | cons x xs ih =>
      simp only [List.length_cons, List.map_cons, List.flatten_cons, List.length_append]
      omega
  have hread := Buffer.readStrings_flatten hs hfuel []
  simp only [List.nil_append, List.length_nil] at hread
  unfold extractStringV
  rw [hflat, hread]
  simp only [ofOption_some, bind_apply, pure_apply, ok_bind]
  rw [List.map_map]
  rfl

/-- A stored value is extracted without a throw and without leaving its data. -/
theorem extract_stored (key : Bytes) (v : TypedValue) :
    extract key v.stored s = .ok [(cString key, v.reply)] s := by
  have hvector : ∀ data e type x, extractVector e data s = .ok x s →
      extract key (.ofVector ⟨data, some e, type⟩) s = .ok [(cString key, x)] s := by
    intro data e type x h
    unfold extract CachedValue.ofVector
    simp [CachedValue.FIXED, CachedValue.VEC, h]
  cases v with
  | int v => rfl
  | uint v => rfl
  | bool v => rfl
  | float v => rfl
  | string str => exact hvector _ _ _ _ (extractString_stored s str)
  | blob b => exact hvector _ _ _ _ (extractBlob_stored s b)
  | vectorInt xs =>
    apply hvector
    exact toTypedVector_encode s (by decide) (fun v => Buffer.length_encode 8 _)
      decodeInt_encodeInt xs
  | vectorUInt xs =>
    apply hvector
    exact toTypedVector_encode s (by decide) (fun v => Buffer.length_encode 8 _)
      decodeUInt_encodeUInt xs
  | vectorFloat xs =>
    apply hvector
    exact toTypedVector_encode s (by decide) (fun v => Buffer.length_encode 4 _)
      decodeFloat_encodeFloat xs
  | vectorBool xs =>
    apply hvector
    exact toTypedVector_encode s Nat.one_pos length_encodeBool decodeBool_encodeBool xs
  | vectorKey xs => exact hvector _ _ _ _ (extractStringV_stored s xs)

end Extract

/-! ### Storing -/

variable {m : CacheMap} {key : Bytes}

/-- Filling the vector that was just emplaced or reset. -/
theorem fillVector_apply {type : FlexType} {e : ExtractVectorF} {size : ℕ}
    {fill : List UInt8 → Option (List UInt8)} {data : List UInt8}
    (hfill : ∀ buffer : List UInt8, buffer.length = size → fill buffer = some data) :
    fillVector {} key type e size fill (m.insert key (.ofVector {})) =
      .ok () (m.insert key (.ofVector ⟨data, some e, type⟩)) := by
  have hdata := hfill (Buffer.resize [] size) (Buffer.length_resize [] size)
  unfold fillVector getVector CachedValue.ofVector
  simp [hdata, set, Finmap.insert_insert]

theorem copyScalars_eq {α : Type} {encode : α → List UInt8} {width : ℕ}
    (hlen : ∀ v, (encode v).length = width) (xs : List α) (pre buffer : List UInt8)
    (hbuffer : buffer.length = width * xs.length) :
    copyScalars encode xs pre.length (pre ++ buffer) =
      some (pre ++ (xs.map encode).flatten) := by
  induction xs generalizing pre buffer with
  | nil =>
    obtain rfl : buffer = [] := List.length_eq_zero_iff.mp (by simpa using hbuffer)
    rfl
  | cons v xs ih =>
    rw [List.length_cons, Nat.mul_succ] at hbuffer
    have hsplit : pre ++ buffer = pre ++ buffer.take width ++ buffer.drop width := by
      rw [List.append_assoc, List.take_append_drop]
    have htake : (encode v).length = (buffer.take width).length := by
      rw [hlen, List.length_take]
      omega
    have hrest := ih (pre ++ encode v) (buffer.drop width)
      (by rw [List.length_drop]; omega)
    rw [List.length_append] at hrest
    unfold copyScalars
    rw [hsplit, Buffer.write_append htake]
    simp only [Option.bind_eq_bind, Option.bind_some]
    rw [hrest, List.map_cons, List.flatten_cons, List.append_assoc]

theorem copyStrings_eq (xs : List Key) (pre buffer : List UInt8)
    (hbuffer : buffer.length = (xs.map fun x => x.1.length + 1).sum) :
    copyStrings xs pre.length (pre ++ buffer) =
      some (pre ++ (xs.map fun x => x.1 ++ [0]).flatten) := by
  induction xs generalizing pre buffer with
  | nil =>
    obtain rfl : buffer = [] := List.length_eq_zero_iff.mp (by simpa using hbuffer)
    rfl
  | cons x xs ih =>
    rw [List.map_cons, List.sum_cons] at hbuffer
    have hbytes : pre ++ buffer =
        pre ++ buffer.take x.1.length ++ buffer.drop x.1.length := by
      rw [List.append_assoc, List.take_append_drop]
    have htake : x.1.length = (buffer.take x.1.length).length := by
      rw [List.length_take]
      omega
    have hnul : pre ++ x.1 ++ buffer.drop x.1.length =
        pre ++ x.1 ++ (buffer.drop x.1.length).take 1 ++ buffer.drop (x.1.length + 1) := by
      rw [List.append_assoc (pre ++ x.1), ← List.drop_drop, List.take_append_drop]
    have hone : ([0] : List UInt8).length = ((buffer.drop x.1.length).take 1).length := by
      rw [List.length_take, List.length_drop, List.length_singleton]
      omega
    have hrest := ih (pre ++ x.1 ++ [0]) (buffer.drop (x.1.length + 1))
      (by rw [List.length_drop]; omega)
    have hwrite := @Buffer.write_append (pre ++ x.1) _ (buffer.drop (x.1.length + 1)) _ hone
    rw [List.length_append] at hwrite
    rw [List.length_append, List.length_append, List.length_singleton, Nat.add_assoc] at hrest
    unfold copyStrings
    rw [hbytes, Buffer.write_append htake]
    simp only [Option.bind_eq_bind, Option.bind_some]
    rw [hnul, hwrite]
    simp only [Option.bind_some]
    rw [hrest, List.map_cons, List.flatten_cons]
    simp

/-- The vector overloads succeed with what their filling function stores. -/
theorem setOrAddVector_apply {isSet : Bool} {store : Cpp CacheMap Unit} {cachedValue : CachedValue}
    (hstore : ∀ m : CacheMap, store (m.insert key (.ofVector {})) =
      .ok () (m.insert key cachedValue)) :
    setOrAddVector {} isSet key store m =
      .ok true (if isSet || (m.lookup key).isNone then m.insert key cachedValue else m) := by
  unfold setOrAddVector
  cases h : m.lookup key with
  | none => simp [tryCatch_apply, h, tryEmplace, hstore]
  | some old => cases isSet <;> simp [tryCatch_apply, h, set, hstore]

theorem setOrAddFixed_apply (isSet : Bool) (value : FixedValue) :
    setOrAddFixed {} isSet key value m =
      .ok true (if isSet || (m.lookup key).isNone then m.insert key (.ofFixed value) else m) := by
  unfold setOrAddFixed
  cases h : m.lookup key with
  | none => simp [tryCatch_apply, h, tryEmplace]
  | some old => cases isSet <;> simp [tryCatch_apply, h, set]

theorem scalarsToMap_apply {α : Type} {encode : α → List UInt8} {width : ℕ}
    (hlen : ∀ v, (encode v).length = width) (xs : List α) (type : FlexType) (e : ExtractVectorF) :
    scalarsToMap {} key width encode xs type e (m.insert key (.ofVector {})) =
      .ok () (m.insert key (TypedValue.storedScalars encode xs type e)) := by
  unfold scalarsToMap TypedValue.storedScalars
  apply fillVector_apply
  intro buffer hbuffer
  exact copyScalars_eq hlen xs [] buffer hbuffer

theorem stringsToMap_apply (xs : List Key) :
    stringsToMap {} key xs (m.insert key (.ofVector {})) =
      .ok () (m.insert key (TypedValue.vectorKey xs).stored) := by
  have hfold : ∀ n, xs.foldl (fun n s => n + s.1.length) n + xs.length =
      n + (xs.map fun x => x.1.length + 1).sum := by
    induction xs with
    | nil => intro n; rfl
    | cons x xs ih =>
      intro n
      have := ih (n + x.1.length)
      simp only [List.foldl_cons, List.length_cons, List.map_cons, List.sum_cons]
      omega
  unfold stringsToMap
  apply fillVector_apply
  intro buffer hbuffer
  apply copyStrings_eq xs [] buffer
  rw [hbuffer, hfold, Nat.zero_add]

theorem stringToMap_apply (s : Key) :
    stringToMap {} key s.1 (m.insert key (.ofVector {})) =
      .ok () (m.insert key (TypedValue.string s).stored) := by
  unfold stringToMap
  apply fillVector_apply
  intro buffer hbuffer
  have hsum : buffer.length = ([s].map fun x => x.1.length + 1).sum := by simpa using hbuffer
  have hcopy := copyStrings_eq [s] [] buffer hsum
  unfold copyStrings copyStrings at hcopy
  simpa using hcopy

theorem blobToMap_apply (b : Blob) :
    blobToMap {} key b (m.insert key (.ofVector {})) =
      .ok () (m.insert key (TypedValue.blob b).stored) := by
  unfold blobToMap
  apply fillVector_apply
  intro buffer hbuffer
  have hsize : (Buffer.encode 4 b.1.length).length = (buffer.take 4).length := by
    rw [Buffer.length_encode, List.length_take]
    omega
  have hdata : b.1.length = (buffer.drop 4).length := by
    rw [List.length_drop]
    omega
  have hwrite := @Buffer.write_append [] _ (buffer.drop 4) _ hsize
  have hblob := @Buffer.write_append (Buffer.encode 4 b.1.length) _ [] _ hdata
  simp only [List.nil_append, List.take_append_drop, List.length_nil, List.append_nil,
    Buffer.length_encode] at hwrite hblob
  rw [hwrite]
  simp only [Option.bind_eq_bind, Option.bind_some]
  rw [hblob]

/-- Storing a value of a supported type stores its typed value; an unsupported type has no
overload. -/
theorem setOrAdd_apply (isSet : Bool) (m : CacheMap) (key : Bytes) (value : FlexReference) :
    match CacheMap.setOrAdd {} isSet key value, TypedValue.ofFlex value with
    | some store, some v => store m =
        .ok true (if isSet || (m.lookup key).isNone then m.insert key v.stored else m)
    | none, none => True
    | _, _ => False := by
  cases value with
  | int v => exact setOrAddFixed_apply isSet _
  | uint v => exact setOrAddFixed_apply isSet _
  | bool v => exact setOrAddFixed_apply isSet _
  | float v => exact setOrAddFixed_apply isSet _
  | string s => exact setOrAddVector_apply fun m => stringToMap_apply (Key.ofBytes s)
  | blob b => exact setOrAddVector_apply fun m => blobToMap_apply b
  | vectorInt xs =>
    apply setOrAddVector_apply
    exact fun m => scalarsToMap_apply (fun v => Buffer.length_encode 8 _) xs _ _
  | vectorUInt xs =>
    apply setOrAddVector_apply
    exact fun m => scalarsToMap_apply (fun v => Buffer.length_encode 8 _) xs _ _
  | vectorFloat xs =>
    apply setOrAddVector_apply
    exact fun m => scalarsToMap_apply (fun v => Buffer.length_encode 4 _) xs _ _
  | vectorBool xs =>
    apply setOrAddVector_apply
    exact fun m => scalarsToMap_apply length_encodeBool xs _ _
  | vectorKey xs => exact setOrAddVector_apply fun m => stringsToMap_apply xs
  | other t => trivial

/-! ### Decoding undoes encoding -/

/-- Storing into the vector emplaced or reset under a key writes this data. -/
def Stores (store : Bytes → Cpp CacheMap Unit) (type : FlexType) (e : ExtractVectorF)
    (data : List UInt8) : Prop :=
  ∀ (m : CacheMap) (key : Bytes), store key (m.insert key (.ofVector {})) =
    .ok () (m.insert key (.ofVector ⟨data, some e, type⟩))

/-- The extractor gets to the end of the data, does not leave it and adds this value. -/
def Extracts (e : ExtractVectorF) (data : List UInt8) (x : FlexValue) : Prop :=
  ∀ (σ : Type) (s : σ), extractVector e data s = .ok x s

theorem Extracts.unique {e : ExtractVectorF} {data : List UInt8} {x y : FlexValue}
    (hx : Extracts e data x) (hy : Extracts e data y) : x = y := by
  have h := (hx Unit ()).symm.trans (hy Unit ())
  cases h
  rfl

theorem scalarsToMap_extracts {α : Type} {encode : α → List UInt8}
    {decode : List UInt8 → FlexScalar} {scalar : α → FlexScalar} {width : ℕ} {type : FlexType}
    {e : ExtractVectorF} (hwidth : 0 < width) (hlen : ∀ v, (encode v).length = width)
    (hcodec : ∀ v, decode (encode v) = scalar v)
    (he : ∀ (σ : Type) data, extractVector e data = (toTypedVector width decode data : Cpp σ _))
    (xs : List α) :
    ∃ data, Stores (fun key => scalarsToMap {} key width encode xs type e) type e data ∧
      Extracts e data (.typedVector (xs.map scalar)) := by
  refine ⟨(xs.map encode).flatten, fun m key => scalarsToMap_apply hlen xs type e, fun σ s => ?_⟩
  rw [he]
  exact toTypedVector_encode s hwidth hlen hcodec xs

theorem stringsToMap_extracts (xs : List Key) :
    ∃ data, Stores (fun key => stringsToMap {} key xs) .vectorKey .extractStringV data ∧
      Extracts .extractStringV data (.typedVector (xs.map fun x => .string x.1)) :=
  ⟨_, fun _ _ => stringsToMap_apply xs, fun _ s => extractStringV_stored s xs⟩

/-- The stored bytes of a list of strings determine it. -/
theorem stringsToMap_injective {xs ys : List Key} {data : List UInt8}
    (hxs : Stores (fun key => stringsToMap {} key xs) .vectorKey .extractStringV data)
    (hys : Stores (fun key => stringsToMap {} key ys) .vectorKey .extractStringV data) :
    xs = ys := by
  have hdata : ∀ {zs : List Key},
      Stores (fun key => stringsToMap {} key zs) .vectorKey .extractStringV data →
        Extracts .extractStringV data (.typedVector (zs.map fun z => .string z.1)) := by
    intro zs hzs
    obtain ⟨data', hstores, hextracts⟩ := stringsToMap_extracts zs
    have hmaps := (hzs ∅ []).symm.trans (hstores ∅ [])
    have hlookup := congrArg (fun m : CacheMap => m.lookup []) (Outcome.ok.inj hmaps).2
    simp only [Finmap.lookup_insert] at hlookup
    cases hlookup
    exact hextracts
  have hstrings := FlexValue.typedVector.inj ((hdata hxs).unique (hdata hys))
  refine List.map_injective_iff.mpr (fun x y hxy => ?_) hstrings
  exact Subtype.ext (FlexScalar.string.inj hxy)

/-- Every kind of vector the map stores is extracted as it was, and lists of strings that differ
are stored as different bytes. -/
theorem stored_vectors_extract :
    (∀ xs : List Key, ∃ data,
      Stores (fun key => stringsToMap {} key xs) .vectorKey .extractStringV data ∧
        Extracts .extractStringV data (.typedVector (xs.map fun x => .string x.1))) ∧
    (∀ xs : List Int64, ∃ data,
      Stores (fun key => scalarsToMap {} key 8 encodeInt xs .vectorInt .extractIntV)
          .vectorInt .extractIntV data ∧
        Extracts .extractIntV data (.typedVector (xs.map .int))) ∧
    (∀ xs : List UInt64, ∃ data,
      Stores (fun key => scalarsToMap {} key 8 encodeUInt xs .vectorUInt .extractUIntV)
          .vectorUInt .extractUIntV data ∧
        Extracts .extractUIntV data (.typedVector (xs.map .uint))) ∧
    (∀ xs : List FcFloat, ∃ data,
      Stores (fun key => scalarsToMap {} key 4 encodeFloat xs .vectorFloat .extractFloatV)
          .vectorFloat .extractFloatV data ∧
        Extracts .extractFloatV data (.typedVector (xs.map .float))) ∧
    (∀ xs : List Bool, ∃ data,
      Stores (fun key => scalarsToMap {} key 1 encodeBool xs .vectorBool .extractBoolV)
          .vectorBool .extractBoolV data ∧
        Extracts .extractBoolV data (.typedVector (xs.map .bool))) ∧
    (∀ b : Blob, ∃ data, Stores (fun key => blobToMap {} key b) .blob .extractBlob data ∧
      Extracts .extractBlob data (.blob b.1)) ∧
    ∀ (xs ys : List Key) (data : List UInt8),
      Stores (fun key => stringsToMap {} key xs) .vectorKey .extractStringV data →
        Stores (fun key => stringsToMap {} key ys) .vectorKey .extractStringV data → xs = ys := by
  refine ⟨stringsToMap_extracts, fun xs => ?_, fun xs => ?_, fun xs => ?_, fun xs => ?_,
    fun b => ?_, fun xs ys data => stringsToMap_injective⟩
  · exact scalarsToMap_extracts (by decide) (fun v => Buffer.length_encode 8 _)
      decodeInt_encodeInt (fun _ _ => rfl) xs
  · exact scalarsToMap_extracts (by decide) (fun v => Buffer.length_encode 8 _)
      decodeUInt_encodeUInt (fun _ _ => rfl) xs
  · exact scalarsToMap_extracts (by decide) (fun v => Buffer.length_encode 4 _)
      decodeFloat_encodeFloat (fun _ _ => rfl) xs
  · exact scalarsToMap_extracts Nat.one_pos length_encodeBool decodeBool_encodeBool
      (fun _ _ => rfl) xs
  · exact ⟨_, fun _ _ => blobToMap_apply b, fun _ s => extractBlob_stored s b⟩

end CacheMap

end FCache
