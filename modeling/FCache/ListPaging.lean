import FCache.ListDeque
import FCache.ListRanges

/-!
# Reading a list in pages

The client turns a start and a count into a range with a stop; the server clamps the stop to the
list. The answers are the elements from the start on, as many as were asked for or as there are,
so that calls for consecutive pages neither skip an element nor repeat one.
-/

namespace FCache

open Client Slice

/-- The first `count` elements; all of them if there is no count, or a count of zero. -/
def counted {α : Type} (count : Option ℤ) (l : List α) : List α :=
  match count with
  | none => l
  | some n => if n = 0 then l else l.take n.toNat

namespace UnsortedList

/-! ### One call -/

section Answers

variable {start : ℤ} {count : Option ℤ} {α : Type}

/-- A call has no stop and reads all that is left, or it stops a positive count after its start. -/
theorem stopOf_cases (start : ℤ) (hcount : 0 ≤ count.getD 0) :
    (stopOf start count = none ∧ ∀ l : List α, counted count l = l) ∨
      ∃ n, 0 < n ∧ count = some n ∧ stopOf start count = some (start + n) ∧
        ∀ l : List α, counted count l = l.take n.toNat := by
  cases count with
  | none => exact .inl ⟨rfl, fun _ => rfl⟩
  | some n =>
    rw [Option.getD_some] at hcount
    by_cases hn : n = 0
    · subst hn
      exact .inl ⟨rfl, fun _ => rfl⟩
    · right
      refine ⟨n, by omega, rfl, by simp [stopOf, hn], fun l => ?_⟩
      simp only [counted, if_neg hn]

/-- The stop, or the zero that is sent without one, fits its field. -/
theorem stopOf_getD (hstart : 0 ≤ start) (hcount : 0 ≤ count.getD 0)
    (hfits : start + count.getD 0 < 2 ^ 31) :
    0 ≤ (stopOf start count).getD 0 ∧ (stopOf start count).getD 0 < 2 ^ 31 := by
  rcases @stopOf_cases count Unit start hcount with ⟨hstop, _⟩ | ⟨n, hn, rfl, hstop, _⟩
  · rw [hstop, Option.getD_none]
    exact ⟨le_refl 0, by omega⟩
  · rw [hstop]
    rw [Option.getD_some] at hfits ⊢
    exact ⟨by omega, hfits⟩

/-- What a call with a count selects. -/
theorem selected_stopOf (l : List α) (hstart : 0 ≤ start) (hcount : 0 ≤ count.getD 0) :
    selected l start ((stopOf start count).getD 0) (stopOf start count).isSome =
      counted count (l.drop start.toNat) := by
  by_cases hin : InBounds l.length start
  · have hpos : position l.length start = start := if_neg (not_lt.mpr hstart)
    have hlen : (l.drop start.toNat).length = l.length - start.toNat := List.length_drop
    rw [selected_inBounds hin, hpos, block_eq_take_drop]
    rcases @stopOf_cases count α start hcount with ⟨hstop, hall⟩ | ⟨n, hn, _, hstop, htake⟩
    · rw [hstop, hall, Option.isSome_none, stopIndex_noStop rfl]
      exact List.take_of_length_le (by omega)
    · have hindex : stopIndex l.length (start + n) true = min (l.length : ℤ) (start + n) := by
        unfold stopIndex
        rw [if_pos rfl, if_neg (by omega)]
      rw [hstop, htake, Option.getD_some, Option.isSome_some, hindex]
      -- the stop is past the last element, or the count is not cut
      rcases le_total (l.length : ℤ) (start + n) with hle | hle
      · rw [min_eq_left hle, List.take_of_length_le (by omega), List.take_of_length_le (by omega)]
      · rw [min_eq_right hle]
        congr 1
        omega
  · have hout : l.length ≤ start.toNat := by
      unfold InBounds at hin
      omega
    have hnil : selected l start ((stopOf start count).getD 0) (stopOf start count).isSome = [] :=
      selected_eq_nil_iff.mpr fun h => hin h.1
    rw [hnil, List.drop_eq_nil_of_le hout]
    rcases @stopOf_cases count α start hcount with ⟨_, hall⟩ | ⟨n, _, _, _, htake⟩
    · rw [hall]
    · rw [htake, List.take_nil]

end Answers

section Calls

variable {server : Server} {name : Bytes} {a : Alternative} {d : List a.ValueType} {sorted : Bool}

/-- A call with a count reads from one end or the other. -/
theorem call_doGetRange (h : server.listHandler.Holds name a d sorted) (hname : name ≠ [])
    (base : Base) {start : ℤ} {count : Option ℤ} (hstart : 0 ≤ start) (hcount : 0 ≤ count.getD 0)
    (hfits : start + count.getD 0 < 2 ^ 31) :
    call (doGetRange name base start (stopOf start count)) server = some (.ok
      ((counted count ((if base = .head then d else d.reverse).drop start.toNat)).map
        ListValue.add), server) := by
  obtain ⟨hstop₀, hstop₁⟩ := stopOf_getD hstart hcount hfits
  have hrange := call_range start (stopOf start count) (by omega) (by omega) server
  have hstep := ListHandler.step_getRange h
    { start := Int32.ofInt start, stop := Int32.ofInt ((stopOf start count).getD 0),
      hasStop := (stopOf start count).isSome } base
  unfold Range.selected at hstep
  rw [Int32.toInt_ofInt_of_le (by omega) (by omega), Int32.toInt_ofInt_of_le (by omega) (by omega),
    selected_stopOf _ hstart hcount] at hstep
  have hsend := call_sendCmd_ok (Server.step_of_handle (Handling.answered_eq_some.mp hstep)) rfl
    false
  unfold doGetRange
  rw [decide_eq_false hname]
  simp only [call_bind, call_raiseIf_false, Option.bind_some, hrange]
  exact congrArg (fun r => Option.bind r _) hsend

/-- A call whose stop does not fit its field raises. -/
theorem call_doGetRange_badNumber (hname : name ≠ []) (base : Base) {start : ℤ} {stop : Option ℤ}
    (hstop : 2 ^ 31 ≤ stop.getD 0) (server : Server) :
    call (doGetRange name base start stop) server = some (.error .badNumber, server) := by
  have hlast : call (int32 (stop.getD 0)) server = some (.error .badNumber, server) := by
    unfold int32
    rw [if_neg (by omega)]
    rfl
  have hrange : call (range start stop) server = some (.error .badNumber, server) := by
    unfold range
    by_cases hfirst : -2 ^ 31 ≤ start ∧ start < 2 ^ 31
    · simp only [call_bind, call_int32 hfirst, Option.bind_some, hlast]
    · have hraise : call (int32 start) server = some (.error .badNumber, server) := by
        unfold int32
        rw [if_neg hfirst]
        rfl
      simp only [call_bind, hraise, Option.bind_some]
  unfold doGetRange
  rw [decide_eq_false hname]
  simp only [call_bind, call_raiseIf_false, Option.bind_some, hrange]

end Calls

/-! ### Pages -/

/-- The answers to calls for `n` elements at `0`, `n`, `2 * n` and so on, up to the first empty
one. -/
structure Pages (get : ℤ → Option ℤ → Client (List FlexScalar)) (server : Server) (n : ℕ)
    (pages : List (List FlexScalar)) : Prop where
  answered : ∀ (i : ℕ) page, pages[i]? = some page →
    page ≠ [] ∧ call (get (i * n) (some n)) server = some (.ok page, server)
  last : call (get (pages.length * n) (some n)) server = some (.ok [], server)

/-- A call that answers one page of a list, or raises. -/
def ReadsPages (get : ℤ → Option ℤ → Client (List FlexScalar)) (server : Server) (n : ℕ)
    (l : List FlexScalar) : Prop :=
  ∀ i : ℕ, call (get (i * n) (some n)) server =
    if i * n + n < 2 ^ 31 then some (.ok ((l.drop (i * n)).take n), server)
    else some (.error .badNumber, server)

section ReadsPages

variable {get : ℤ → Option ℤ → Client (List FlexScalar)} {server : Server} {n : ℕ}
  {l : List FlexScalar} {pages : List (List FlexScalar)}

theorem ReadsPages.eq_of_ok (h : ReadsPages get server n l) {i : ℕ} {page : List FlexScalar}
    (hpage : call (get (i * n) (some n)) server = some (.ok page, server)) :
    page = (l.drop (i * n)).take n := by
  rw [h i] at hpage
  split at hpage
  · cases hpage
    rfl
  · cases hpage

theorem Pages.flatten_eq (hget : ReadsPages get server n l) (hn : 1 ≤ n)
    (h : Pages get server n pages) : pages.flatten = l := by
  have hpages : pages = (List.range pages.length).map fun i => (l.drop (i * n)).take n := by
    apply List.ext_getElem (by simp)
    intro i hi _
    rw [List.getElem_map, List.getElem_range]
    exact hget.eq_of_ok (h.answered i _ (List.getElem?_eq_getElem hi)).2
  have hlast := hget.eq_of_ok h.last
  have hlen : l.length ≤ pages.length * n := by
    have hzero := congrArg List.length hlast
    rw [List.length_take, List.length_drop, List.length_nil] at hzero
    omega
  rw [hpages, flatten_blocks, List.take_of_length_le hlen]

/-- If the page at each start up to the first one past the list fits, they are all answered. -/
theorem exists_pages (hget : ReadsPages get server n l) (hn : 1 ≤ n)
    (hfits : ∀ i : ℕ, i * n < l.length + n → i * n + n < 2 ^ 31) :
    ∃ pages, Pages get server n pages := by
  -- the number of pages is the length divided by `n`, rounded up
  obtain ⟨k, hk, hmin⟩ : ∃ k, l.length ≤ k * n ∧ ∀ i < k, i * n < l.length := by
    have hex : ∃ k, l.length ≤ k * n := ⟨l.length, Nat.le_mul_of_pos_right _ hn⟩
    exact ⟨Nat.find hex, Nat.find_spec hex, fun i hi => not_le.mp (Nat.find_min hex hi)⟩
  have hanswer : ∀ i ≤ k, call (get (i * n) (some n)) server =
      some (.ok ((l.drop (i * n)).take n), server) := by
    intro i hi
    rw [hget i, if_pos]
    apply hfits
    rcases Nat.eq_zero_or_pos i with rfl | hpos
    · omega
    · have hprev := hmin (i - 1) (by omega)
      rw [Nat.sub_mul, Nat.one_mul] at hprev
      omega
  refine ⟨(List.range k).map fun i => (l.drop (i * n)).take n, ?_, ?_⟩
  · intro i page hpage
    rw [List.getElem?_map, Option.map_eq_some_iff] at hpage
    obtain ⟨j, hj, rfl⟩ := hpage
    obtain ⟨hlt, rfl⟩ := List.getElem?_eq_some_iff.mp hj
    rw [List.length_range] at hlt
    rw [List.getElem_range]
    refine ⟨?_, hanswer i hlt.le⟩
    have hstart := hmin i hlt
    apply List.ne_nil_of_length_pos
    rw [List.length_take, List.length_drop]
    omega
  · have hnil : (l.drop (k * n)).take n = [] := by
      rw [List.drop_eq_nil_of_le hk, List.take_nil]
    rw [List.length_map, List.length_range, hanswer k le_rfl, hnil]

end ReadsPages

variable {server : Server} {name : Bytes} {a : Alternative} {d : List a.ValueType} {sorted : Bool}

theorem doGetRange_readsPages (h : server.listHandler.Holds name a d sorted) (hname : name ≠ [])
    (base : Base) {n : ℕ} (hn : 1 ≤ n) :
    ReadsPages (fun start count => doGetRange name base start (stopOf start count)) server n
      ((if base = .head then d else d.reverse).map ListValue.add) := by
  intro i
  have hstart : 0 ≤ (i : ℤ) * n := Int.mul_nonneg (Int.natCast_nonneg i) (Int.natCast_nonneg n)
  by_cases hfits : i * n + n < 2 ^ 31
  · have hcall := @call_doGetRange server name a d sorted h hname base (i * n) (some n) hstart
      (Int.natCast_nonneg n) (by rw [Option.getD_some]; exact_mod_cast hfits)
    have hpage : ((i : ℤ) * n).toNat = i * n := by
      rw [← Int.natCast_mul, Int.toNat_natCast]
    have hcounted : ∀ m : List a.ValueType, counted (some (n : ℤ)) m = m.take n := by
      intro m
      simp only [counted, Int.toNat_natCast]
      rw [if_neg (by omega)]
    rw [if_pos hfits, hcall, hpage, hcounted, List.map_take, List.map_drop]
  · have hstop : stopOf ((i : ℤ) * n) (some (n : ℤ)) = some ((i : ℤ) * n + n) := by
      have hzero : n ≠ 0 := by omega
      simp [stopOf, hzero]
    rw [if_neg hfits]
    apply call_doGetRange_badNumber hname
    rw [hstop, Option.getD_some]
    exact_mod_cast not_lt.mp hfits

/-- The client and the server answer a call with a count as a drop and a take on the list, read
from either end, and consecutive pages make up the list. -/
theorem call_getN_pages (h : server.listHandler.Holds name a d sorted) (hname : name ≠ []) :
    (∀ (start : ℤ) (count : Option ℤ), 0 ≤ start → 0 ≤ count.getD 0 →
      start + count.getD 0 < 2 ^ 31 →
        call (getN name start count) server =
          some (.ok ((counted count (d.drop start.toNat)).map ListValue.add), server) ∧
        call (getNReverse name start count) server =
          some (.ok ((counted count (d.reverse.drop start.toNat)).map ListValue.add), server)) ∧
    ∀ n : ℕ, 1 ≤ n →
      (∀ pages, Pages (fun start count => getN name start count) server n pages →
        pages.flatten = d.map ListValue.add) ∧
      (∀ pages, Pages (fun start count => getNReverse name start count) server n pages →
        pages.flatten = d.reverse.map ListValue.add) ∧
      ((∀ i : ℕ, i * n < d.length + n → i * n + n < 2 ^ 31) →
        (∃ pages, Pages (fun start count => getN name start count) server n pages) ∧
        ∃ pages, Pages (fun start count => getNReverse name start count) server n pages) := by
  refine ⟨fun start count hstart hcount hfits => ?_, fun n hn => ?_⟩
  · exact ⟨call_doGetRange h hname .head hstart hcount hfits,
      call_doGetRange h hname .tail hstart hcount hfits⟩
  · have hhead := doGetRange_readsPages h hname .head hn
    have htail := doGetRange_readsPages h hname .tail hn
    refine ⟨fun pages => Pages.flatten_eq hhead hn, fun pages => Pages.flatten_eq htail hn,
      fun hfits => ⟨exists_pages hhead hn ?_, exists_pages htail hn ?_⟩⟩
    · simpa using hfits
    · simpa using hfits

/-- The answers on a list of three integers: the last two, and two pages. -/
theorem call_getN_pages_three :
    let server : Server :=
      { listHandler := Finmap.insert [97] (FcList.ofList ⟨.intList, [1, 2, 3]⟩ false) ∅ }
    call (getN [97] 1 (some 5)) server = some (.ok [.int 2, .int 3], server) ∧
      ∃ pages, Pages (fun start count => getN [97] start count) server 2 pages ∧
        pages.flatten = [.int 1, .int 2, .int 3] := by
  intro server
  have h : server.listHandler.Holds [97] .intList [1, 2, 3] false := Finmap.lookup_insert _
  obtain ⟨hcall, hpages⟩ := call_getN_pages h (List.cons_ne_nil 97 [])
  obtain ⟨hflatten, _, hexists⟩ := hpages 2 (Nat.le_succ 1)
  have hlen : ([1, 2, 3] : List Int64).length = 3 := rfl
  obtain ⟨⟨pages, hread⟩, _⟩ := hexists fun i hi => by
    rw [hlen] at hi
    omega
  refine ⟨(hcall 1 (some 5) ?_ ?_ ?_).1, pages, hread, hflatten pages hread⟩ <;> decide

/-- A list under the empty name is stored like any other, but the calls that read it raise. -/
theorem not_call_getN_pages : ¬ ∀ (server : Server) (name : Bytes) (a : Alternative)
    (d : List a.ValueType) (sorted : Bool), Server.machine.Reachable server →
    server.listHandler.Holds name a d sorted →
    ∀ (start : ℤ) (count : Option ℤ), 0 ≤ start → 0 ≤ count.getD 0 →
      start + count.getD 0 < 2 ^ 31 →
        call (getN name start count) server =
          some (.ok ((counted count (d.drop start.toNat)).map ListValue.add), server) := by
  intro h
  let server : Server :=
    { listHandler := Finmap.insert [] (FcList.ofList ⟨.intList, []⟩ false) ∅ }
  have hcreate : Server.machine.step {} (.list (some (.create { name := [], type := 0 }))) =
      some (server, ⟨[⟨.ok, .listCreate, none⟩]⟩) := by
    decide +kernel
  have hheld : server.listHandler.Holds [] .intList [] false := Finmap.lookup_insert _
  have hraise : (call (getN [] 0 none) server).map Prod.fst =
      some (.error (.valueError "name is empty")) := by
    decide +kernel
  rw [h server [] .intList [] false (.step .init trivial hcreate) hheld 0 none le_rfl le_rfl
    (by decide)] at hraise
  cases hraise

end UnsortedList

end FCache
