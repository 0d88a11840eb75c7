/-
  Base/TimeZoneFile.lean --- loading a zone file: `readTimeZoneFile` and the constructor of
  `TimeZone` (src/muduo/base/TimeZone.cc).

  The file is a header of 44 bytes, the times of the transitions, the index of the type of each,
  the types, and the text of the abbreviations.  `readTimeZoneFile` fills the data as it reads,
  keeps what it has filled when something is missing, and says `true` in every case.

  `load_spec` is what it fills from any file, by the positions in the file; `Sound` are the files
  that give data with which every conversion works (`zone_usable_iff`).
-/
import Muduo.Foundation.ByteFile
import Muduo.Base.TimeZone

set_option autoImplicit false

namespace Muduo.Base

open Muduo.Foundation

/-! ## `File` -/

/-- `be32toh`, as an `int32_t`. -/
def int32Of (x : List UInt8) : Int := (BitVec.ofNat 32 (fromNetwork x)).toInt

namespace File

open FileM

/-- `readBytes(n)`.  The bytes go through `char buf[n]`; a count so large that this exhausts the
stack is outside of the model. -/
def readBytes (n : Int) : FileM ZoneData (List UInt8) :=
  -- `char buf[n]` has no meaning for a negative `n`
  if n < 0 then stop (.fault .outOfBounds)
  else do
    let buf ← fread n.toNat
    throwIf ((buf.length : Int) ≠ n)
    pure buf

/-- `readInt32()`. -/
def readInt32 : FileM ZoneData Int := do
  let x ← fread 4
  throwIf (x.length ≠ 4)
  pure (int32Of x)

/-- `readUInt8()`. -/
def readUInt8 : FileM ZoneData Nat := do
  let x ← fread 1
  throwIf (x.length ≠ 1)
  pure (fromNetwork x)

end File

/-! ## `readTimeZoneFile` -/

/-- The counts that are used. -/
structure Counts where
  timecnt : Int
  typecnt : Int
  charcnt : Int
  deriving DecidableEq, Repr

/-- The version, the unused bytes, and the six counts. -/
def readCounts : FileM ZoneData Counts := do
  let _version ← File.readBytes 1
  let _unused ← File.readBytes 15
  let _isgmtcnt ← File.readInt32
  let _isstdcnt ← File.readInt32
  let _leapcnt ← File.readInt32
  let timecnt ← File.readInt32
  let typecnt ← File.readInt32
  let charcnt ← File.readInt32
  pure ⟨timecnt, typecnt, charcnt⟩

/-- A type in the file. -/
def readType : FileM ZoneData Localtime := do
  let gmtoff ← File.readInt32
  let isdst ← File.readUInt8
  let abbrind ← File.readUInt8
  pure ⟨gmtoff, isdst != 0, abbrind⟩

/-- `localtimes.push_back`. -/
def pushType (data : ZoneData) (type : Localtime) : ZoneData :=
  { data with localtimes := data.localtimes ++ [type] }

/-- One round of the third loop over `timecnt`. -/
def pushTransition (data : ZoneData) (time : Int) (localIdx : Nat) : Exec (Unit × ZoneData) := do
  let type ← readAt data.localtimes localIdx
  let transition := ⟨time, time + type.gmtOffset, localIdx⟩
  return ((), { data with transitions := data.transitions ++ [transition] })

/-- That loop, with `trans[i]` and `localtimes[i]`. -/
def pushTransitions : List (Int × Nat) → FileM ZoneData Unit
  | [] => pure ()
  | (time, localIdx) :: rest => do
      FileM.onData fun data => pushTransition data time localIdx
      pushTransitions rest

/-- The abbreviations. -/
def readText (charcnt : Int) : FileM ZoneData Unit := do
  let abbreviation ← File.readBytes charcnt
  FileM.modifyData fun data => { data with abbreviation := abbreviation }

/-- The part of the body that fills the data; the loop over `leapcnt` is empty. -/
def fillData (transitions : List (Int × Nat)) (counts : Counts) : FileM ZoneData Unit := do
  FileM.readInto readType pushType counts.typecnt.toNat
  pushTransitions transitions
  readText counts.charcnt

/-- The body of the `try`. -/
def readData : FileM ZoneData Unit := do
  let head ← File.readBytes 4
  FileM.throwIf (head ≠ ascii "TZif")
  let counts ← readCounts
  -- `reserve` of a negative count throws a `length_error`, which is a `logic_error`
  FileM.throwIf (counts.timecnt < 0)
  let trans ← FileM.readMany File.readInt32 counts.timecnt.toNat
  let localtimes ← FileM.readMany File.readUInt8 counts.timecnt.toNat
  fillData (trans.zip localtimes) counts

/-- `new TimeZone::Data`. -/
def ZoneData.empty : ZoneData := ⟨[], [], []⟩

/-- The data after the body; a `logic_error` is printed and nothing more. -/
def load (file : List UInt8) : Exec ZoneData :=
  FileM.caught (readData ⟨file, ZoneData.empty⟩)

/-- What is returned, and the data; there is no content if the file cannot be opened. -/
def readTimeZoneFile (content : Option (List UInt8)) : Exec (Bool × ZoneData) :=
  match content with
  | some file => do return (true, ← load file)
  | none => return (true, ZoneData.empty)

/-- The constructor of `TimeZone`. -/
def TimeZone.new (content : Option (List UInt8)) : Exec TimeZone := do
  let (ok, data) ← readTimeZoneFile content
  return ⟨if ok then some data else none⟩

/-! ## The file by its positions -/

/-- The `int32_t` at a position of a file. -/
def int32At (file : List UInt8) (i : Nat) : Int := int32Of ((file.drop i).take 4)

/-- The `uint8_t` at a position. -/
def uint8At (file : List UInt8) (i : Nat) : Nat := fromNetwork ((file.drop i).take 1)

/-- The type at a position. -/
def typeAt (file : List UInt8) (i : Nat) : Localtime :=
  ⟨int32At file i, uint8At file (i + 4) != 0, uint8At file (i + 5)⟩

/-- The number of transitions, as the head of the file has it. -/
def timecnt (file : List UInt8) : Nat := (int32At file 32).toNat

/-- The number of types. -/
def typecnt (file : List UInt8) : Nat := (int32At file 36).toNat

/-- The number of bytes of the abbreviations. -/
def charcnt (file : List UInt8) : Int := int32At file 40

/-- Where the types begin. -/
def typesBegin (file : List UInt8) : Nat := 44 + 4 * timecnt file + timecnt file

/-- Where the abbreviations begin. -/
def textBegin (file : List UInt8) : Nat := typesBegin file + 6 * typecnt file

/-- The times of the transitions. -/
def times (file : List UInt8) : List Int :=
  (List.range (timecnt file)).map fun i => int32At file (44 + i * 4)

/-- The indices of their types. -/
def indices (file : List UInt8) : List Nat :=
  (List.range (timecnt file)).map fun i => uint8At file (44 + 4 * timecnt file + i)

/-- The first types. -/
def types (file : List UInt8) (n : Nat) : List Localtime :=
  (List.range n).map fun i => typeAt file (typesBegin file + i * 6)

/-- The header is complete, and so are the times and the indices. -/
structure Tabled (file : List UInt8) : Prop where
  header : 44 ≤ file.length
  magic : file.take 4 = ascii "TZif"
  count : 0 ≤ int32At file 32
  table : typesBegin file ≤ file.length

/-- Whether the types are complete. -/
def Typed (file : List UInt8) : Prop := textBegin file ≤ file.length

instance (file : List UInt8) : Decidable (Typed file) := inferInstanceAs (Decidable (_ ≤ _))

/-- Every index is that of a type, and the length of the text is not negative. -/
def InRange (file : List UInt8) : Prop :=
  (∀ j ∈ indices file, j < typecnt file) ∧ 0 ≤ charcnt file

/-- The text of the abbreviations, if it is complete. -/
def text (file : List UInt8) : List UInt8 :=
  if Typed file ∧ textBegin file + charcnt file ≤ file.length then
    (file.drop (textBegin file)).take (charcnt file).toNat
  else []

/-- The transition of a time and an index. -/
def transitionOf (types : List Localtime) (entry : Int × Nat) : Transition :=
  ⟨entry.1, entry.1 + (types[entry.2]?.elim 0 Localtime.gmtOffset), entry.2⟩

/-- The transitions, each with its local time. -/
def transitions (file : List UInt8) : List Transition :=
  ((times file).zip (indices file)).map (transitionOf (types file (typecnt file)))

/-! ## What is filled -/

section Readers

open FileM

theorem int32At_drop (file : List UInt8) (i j : Nat) :
    int32At (file.drop i) j = int32At file (i + j) := by
  rw [int32At, int32At, List.drop_drop]

theorem uint8At_drop (file : List UInt8) (i j : Nat) :
    uint8At (file.drop i) j = uint8At file (i + j) := by
  rw [uint8At, uint8At, List.drop_drop]

theorem typeAt_drop (file : List UInt8) (i j : Nat) :
    typeAt (file.drop i) j = typeAt file (i + j) := by
  rw [typeAt, typeAt, int32At_drop, uint8At_drop, uint8At_drop]
  simp only [Nat.add_assoc]

/-- `fread` of a number of bytes, with the exception if there are fewer. -/
theorem takes_fread {α : Type} (n : Nat) (f : List UInt8 → α) (p : List UInt8 → Prop)
    [DecidablePred p] (hp : ∀ buf, p buf ↔ buf.length ≠ n) :
    Takes (do
      let buf ← (fread n : FileM ZoneData (List UInt8))
      throwIf (p buf)
      pure (f buf)) n fun input => f (input.take n) where
  whole s h := by
    have hlength : (s.input.take n).length = n := by
      rw [List.length_take, Nat.min_eq_left h]
    rw [bind_ok (by rfl), throwIf, if_neg (by rw [hp, hlength]; exact fun hne => hne rfl)]
    rfl
  short s h := by
    have hlength : (s.input.take n).length ≠ n := by
      rw [List.length_take]
      omega
    refine ⟨s.input.drop n, ?_⟩
    rw [bind_ok (by rfl), throwIf, if_pos ((hp _).mpr hlength)]
    rfl

theorem takes_readBytes {n : Int} (hn : 0 ≤ n) :
    Takes (File.readBytes n) n.toNat fun input => input.take n.toNat := by
  rw [File.readBytes, if_neg (Int.not_lt.mpr hn)]
  exact takes_fread n.toNat id _ fun buf => by omega

theorem takes_readInt32 : Takes File.readInt32 4 fun input => int32At input 0 :=
  takes_fread 4 int32Of _ fun _ => Iff.rfl

theorem takes_readUInt8 : Takes File.readUInt8 1 fun input => uint8At input 0 :=
  takes_fread 1 fromNetwork _ fun _ => Iff.rfl

theorem takes_readCounts : Takes readCounts 40 fun input =>
    ⟨int32At input 28, int32At input 32, int32At input 36⟩ := by
  refine ((takes_readBytes (by decide)).bind fun _ => (takes_readBytes (by decide)).bind fun _ =>
    takes_readInt32.bind fun _ => takes_readInt32.bind fun _ => takes_readInt32.bind fun _ =>
    takes_readInt32.bind fun timecnt => takes_readInt32.bind fun typecnt =>
    takes_readInt32.bind fun charcnt => takes_pure (Counts.mk timecnt typecnt charcnt)).congr
      (by rfl) fun input => ?_
  simp only [int32At_drop, List.drop_drop, Int.reduceToNat, Nat.reduceAdd]

theorem takes_readType : Takes readType 6 fun input => typeAt input 0 := by
  refine (takes_readInt32.bind fun gmtoff => takes_readUInt8.bind fun isdst =>
    takes_readUInt8.bind fun abbrind =>
      takes_pure (Localtime.mk gmtoff (isdst != 0) abbrind)).congr (by rfl) fun input => ?_
  simp only [uint8At_drop, List.drop_drop, typeAt]

/-! ### The times and the indices -/

section Table

variable {file : List UInt8}

theorem readBytes_head (h : 4 ≤ file.length) : File.readBytes 4 ⟨file, ZoneData.empty⟩ =
    (.ok (file.take 4), ⟨file.drop 4, ZoneData.empty⟩) :=
  (takes_readBytes (by decide)).whole _ h

theorem readCounts_eq (h : 44 ≤ file.length) : readCounts ⟨file.drop 4, ZoneData.empty⟩ =
    (.ok ⟨int32At file 32, int32At file 36, int32At file 40⟩,
      ⟨file.drop 44, ZoneData.empty⟩) := by
  rw [takes_readCounts.whole _ (by dsimp only; rw [List.length_drop]; omega)]
  simp only [int32At_drop, List.drop_drop, Nat.reduceAdd]

theorem readTimes_eq (h : 44 + 4 * timecnt file ≤ file.length) :
    readMany File.readInt32 (timecnt file) ⟨file.drop 44, ZoneData.empty⟩ =
      (.ok (times file), ⟨file.drop (44 + 4 * timecnt file), ZoneData.empty⟩) := by
  rw [(takes_readInt32.many _).whole _ (by dsimp only; rw [List.length_drop]; omega)]
  simp only [itemsOf, int32At_drop, List.drop_drop, Nat.mul_comm]
  rfl

theorem readIndices_eq (h : typesBegin file ≤ file.length) :
    readMany File.readUInt8 (timecnt file)
        ⟨file.drop (44 + 4 * timecnt file), ZoneData.empty⟩ =
      (.ok (indices file), ⟨file.drop (typesBegin file), ZoneData.empty⟩) := by
  unfold typesBegin at h ⊢
  rw [(takes_readUInt8.many _).whole _ (by dsimp only; rw [List.length_drop]; omega)]
  simp only [itemsOf, uint8At_drop, List.drop_drop, Nat.mul_one]
  rfl

theorem readData_of_tabled (h : Tabled file) :
    readData ⟨file, ZoneData.empty⟩ =
      fillData ((times file).zip (indices file))
        ⟨int32At file 32, int32At file 36, int32At file 40⟩
        ⟨file.drop (typesBegin file), ZoneData.empty⟩ := by
  obtain ⟨hheader, hmagic, hcount, htable⟩ := h
  have htimes : 44 + 4 * timecnt file ≤ file.length := by
    unfold typesBegin at htable
    omega
  rw [readData, bind_ok (readBytes_head (by omega)), throwIf, if_neg (not_not_intro hmagic),
    bind_ok (by rfl), bind_ok (readCounts_eq hheader), throwIf, if_neg (Int.not_lt.mpr hcount),
    bind_ok (by rfl)]
  exact (bind_ok (readTimes_eq htimes)).trans (bind_ok (readIndices_eq htable))

/-- Where something is missing before the types, the data stay empty. -/
theorem readData_of_not_tabled (h : ¬ Tabled file) :
    ∃ rest, readData ⟨file, ZoneData.empty⟩ = (.error .logicError, ⟨rest, ZoneData.empty⟩) := by
  unfold readData
  by_cases hshort : file.length < 4
  · obtain ⟨rest, herror⟩ := (takes_readBytes (by decide : (0 : Int) ≤ 4)).short
      ⟨file, ZoneData.empty⟩ hshort
    exact ⟨rest, bind_error herror⟩
  rw [bind_ok (readBytes_head (Nat.not_lt.mp hshort))]
  by_cases hmagic : file.take 4 = ascii "TZif"
  case neg =>
    rw [throwIf, if_pos hmagic, bind_error (by rfl)]
    exact ⟨_, rfl⟩
  rw [throwIf, if_neg (not_not_intro hmagic), bind_ok (by rfl)]
  by_cases hheader : 44 ≤ file.length
  case neg =>
    obtain ⟨rest, herror⟩ := takes_readCounts.short ⟨file.drop 4, ZoneData.empty⟩
      (by dsimp only; rw [List.length_drop]; omega)
    exact ⟨rest, bind_error herror⟩
  rw [bind_ok (readCounts_eq hheader)]
  by_cases hcount : int32At file 32 < 0
  · rw [throwIf, if_pos hcount, bind_error (by rfl)]
    exact ⟨_, rfl⟩
  rw [throwIf, if_neg hcount, bind_ok (by rfl)]
  by_cases htimes : 44 + 4 * timecnt file ≤ file.length
  case neg =>
    obtain ⟨rest, herror⟩ := (takes_readInt32.many (timecnt file)).short
      ⟨file.drop 44, ZoneData.empty⟩ (by dsimp only; rw [List.length_drop]; omega)
    exact ⟨rest, bind_error herror⟩
  have htable : ¬ typesBegin file ≤ file.length :=
    fun htable => h ⟨hheader, hmagic, Int.not_lt.mp hcount, htable⟩
  unfold typesBegin at htable
  obtain ⟨rest, herror⟩ := (takes_readUInt8.many (timecnt file)).short
    ⟨file.drop (44 + 4 * timecnt file), ZoneData.empty⟩
    (by dsimp only; rw [List.length_drop]; omega)
  exact ⟨rest, (bind_ok (readTimes_eq htimes)).trans (bind_error herror)⟩

end Table

/-! ### The types and the transitions -/

theorem foldl_pushType (data : ZoneData) (l : List Localtime) :
    l.foldl pushType data = { data with localtimes := data.localtimes ++ l } := by
  induction l generalizing data with
  | nil => rw [List.foldl_nil, List.append_nil]
  | cons type l ih =>
      rw [List.foldl_cons, ih]
      simp [pushType]

theorem itemsOf_typeAt (file : List UInt8) (n : Nat) :
    itemsOf (fun input => typeAt input 0) 6 n (file.drop (typesBegin file)) = types file n := by
  simp only [itemsOf, typeAt_drop, List.drop_drop]
  rfl

/-- The data with more transitions. -/
def ZoneData.addTransitions (data : ZoneData) (more : List Transition) : ZoneData :=
  { data with transitions := data.transitions ++ more }

theorem pushTransition_ok {data : ZoneData} {localIdx : Nat} (time : Int)
    (h : localIdx < data.localtimes.length) :
    pushTransition data time localIdx =
      .ok ((), data.addTransitions [transitionOf data.localtimes (time, localIdx)]) := by
  have hget := List.getElem?_eq_getElem h
  have hread := readAt_eq_ok_iff.mpr ⟨Int.natCast_nonneg localIdx, hget⟩
  rw [pushTransition, hread, ok_bind, transitionOf, hget, Option.elim_some]
  rfl

theorem pushTransition_fault {data : ZoneData} {localIdx : Nat} (time : Int)
    (h : data.localtimes.length ≤ localIdx) :
    pushTransition data time localIdx = .error .outOfBounds := by
  have hread : readAt data.localtimes localIdx = .error .outOfBounds := by
    rw [readAt, if_neg (by omega), Int.toNat_natCast, List.getElem?_eq_none h]
  rw [pushTransition, hread, error_bind]

theorem pushTransitions_cons_ok {localIdx : Nat} {s : FileState ZoneData} (time : Int)
    (entries : List (Int × Nat)) (h : localIdx < s.data.localtimes.length) :
    pushTransitions ((time, localIdx) :: entries) s = pushTransitions entries
      ⟨s.input, s.data.addTransitions [transitionOf s.data.localtimes (time, localIdx)]⟩ := by
  refine bind_ok (a := ()) ?_
  rw [onData, pushTransition_ok time h]

theorem pushTransitions_ok {entries : List (Int × Nat)} {s : FileState ZoneData}
    (h : ∀ entry ∈ entries, entry.2 < s.data.localtimes.length) :
    pushTransitions entries s =
      (.ok (), ⟨s.input, s.data.addTransitions
      (entries.map (transitionOf s.data.localtimes))⟩) := by
  induction entries generalizing s with
  | nil =>
      rw [List.map_nil, ZoneData.addTransitions, List.append_nil]
      rfl
  | cons entry entries ih =>
      rw [pushTransitions_cons_ok entry.1 entries (h _ List.mem_cons_self)]
      refine (@ih ⟨s.input, s.data.addTransitions _⟩ fun other hother =>
        h other (List.mem_cons_of_mem _ hother)).trans ?_
      simp only [ZoneData.addTransitions, List.map_cons, List.append_assoc, List.cons_append,
        List.nil_append]

theorem pushTransitions_fault {entries : List (Int × Nat)} {s : FileState ZoneData}
    (h : ∃ entry ∈ entries, s.data.localtimes.length ≤ entry.2) :
    ∃ s', pushTransitions entries s = (.error (.fault .outOfBounds), s') := by
  induction entries generalizing s with
  | nil => exact absurd h (by simp)
  | cons entry entries ih =>
      by_cases hlt : entry.2 < s.data.localtimes.length
      · rw [pushTransitions_cons_ok entry.1 entries hlt]
        obtain ⟨other, hmem, hge⟩ := h
        rcases List.mem_cons.mp hmem with rfl | hmem
        · exact absurd hlt (Nat.not_lt.mpr hge)
        · exact ih ⟨other, hmem, hge⟩
      · refine ⟨s, bind_error ?_⟩
        rw [onData, pushTransition_fault entry.1 (Nat.not_lt.mp hlt)]

/-! ### The data of any file -/

section Load

variable {file : List UInt8}

theorem load_of_not_tabled (h : ¬ Tabled file) : load file = .ok ZoneData.empty := by
  obtain ⟨rest, herror⟩ := readData_of_not_tabled h
  exact congrArg caught herror

variable (h : Tabled file)

include h

/-- Where a type is missing, the complete ones are there and nothing else. -/
theorem load_of_not_typed (htyped : ¬ Typed file) :
    load file = .ok ⟨[], types file ((file.length - typesBegin file) / 6), []⟩ := by
  have htable := h.table
  have hshort : (file.drop (typesBegin file)).length < typecnt file * 6 := by
    unfold Typed textBegin at htyped
    rw [List.length_drop]
    omega
  obtain ⟨rest, herror⟩ := @readInto_short _ _ readType pushType 6 _ takes_readType (by decide)
    (typecnt file) ⟨file.drop (typesBegin file), ZoneData.empty⟩ hshort
  rw [itemsOf_typeAt, foldl_pushType, List.length_drop] at herror
  rw [load, readData_of_tabled h]
  exact congrArg caught (bind_error herror)

variable (htyped : Typed file)

include htyped

theorem load_eq : load file = caught
    ((pushTransitions ((times file).zip (indices file)) >>= fun _ => readText (charcnt file))
      ⟨file.drop (textBegin file), ⟨[], types file (typecnt file), []⟩⟩) := by
  have htable := h.table
  have hlength : typecnt file * 6 ≤ (file.drop (typesBegin file)).length := by
    unfold Typed textBegin at htyped
    rw [List.length_drop]
    omega
  have hread : readInto readType pushType (typecnt file)
      ⟨file.drop (typesBegin file), ZoneData.empty⟩ =
      (.ok (), ⟨file.drop (textBegin file), ⟨[], types file (typecnt file), []⟩⟩) := by
    rw [readInto_ok takes_readType hlength, itemsOf_typeAt, foldl_pushType, List.drop_drop,
      textBegin, Nat.mul_comm]
    rfl
  rw [load, readData_of_tabled h]
  exact congrArg caught (bind_ok hread)

/-- An index beyond the types is used as it stands. -/
theorem load_fault_of_index (hindex : ∃ i ∈ indices file, typecnt file ≤ i) :
    load file = .error .outOfBounds := by
  obtain ⟨i, hmem, hge⟩ := hindex
  obtain ⟨n, hi⟩ := List.mem_iff_getElem?.mp hmem
  have hlength : (times file).length = (indices file).length := by
    rw [times, indices, List.length_map, List.length_map]
  obtain ⟨hn, _⟩ := List.getElem?_eq_some_iff.mp hi
  have hentry : ((times file).zip (indices file))[n]? = some ((times file)[n], i) :=
    List.getElem?_zip_eq_some.mpr ⟨List.getElem?_eq_getElem _, hi⟩
  obtain ⟨s', hfault⟩ := @pushTransitions_fault ((times file).zip (indices file))
    ⟨file.drop (textBegin file), ⟨[], types file (typecnt file), []⟩⟩
    ⟨_, List.mem_of_getElem? hentry, by simpa [types] using hge⟩
  rw [load_eq h htyped, bind_error hfault]
  rfl

variable (hindex : ∀ i ∈ indices file, i < typecnt file)

include hindex

theorem load_eq_readText : load file = caught (readText (charcnt file)
    ⟨file.drop (textBegin file), ⟨transitions file, types file (typecnt file), []⟩⟩) := by
  have hall : ∀ entry ∈ (times file).zip (indices file),
      entry.2 < (types file (typecnt file)).length := by
    intro entry hentry
    simpa [types] using hindex entry.2 (List.of_mem_zip hentry).2
  rw [load_eq h htyped]
  exact congrArg caught (bind_ok (pushTransitions_ok hall))

/-- A negative length of the text makes an array of negative size. -/
theorem load_fault_of_count (hcount : charcnt file < 0) : load file = .error .outOfBounds := by
  rw [load_eq_readText h htyped hindex, readText, File.readBytes, if_pos hcount]
  rfl

/-- Otherwise everything is there, but the text if it is not complete. -/
theorem load_of_typed (hcount : 0 ≤ charcnt file) :
    load file = .ok ⟨transitions file, types file (typecnt file), text file⟩ := by
  have htext := takes_readBytes hcount
  have hlength : (file.drop (textBegin file)).length = file.length - textBegin file :=
    List.length_drop
  rw [load_eq_readText h htyped hindex, readText]
  by_cases hwhole : textBegin file + charcnt file ≤ file.length
  · rw [text, if_pos ⟨htyped, hwhole⟩, bind_ok (htext.whole _ (by dsimp only; omega))]
    rfl
  · obtain ⟨rest, herror⟩ := htext.short
      ⟨file.drop (textBegin file), ⟨transitions file, types file (typecnt file), []⟩⟩
      (by dsimp only; unfold Typed at htyped; omega)
    rw [text, if_neg fun hall => hwhole hall.2, bind_error herror]
    rfl

end Load

/-- What is filled from any file: nothing, the complete types alone, or everything. -/
theorem load_spec (file : List UInt8) :
    (¬ Tabled file ∧ load file = .ok ZoneData.empty) ∨
    (Tabled file ∧ ¬ Typed file ∧
      load file = .ok ⟨[], types file ((file.length - typesBegin file) / 6), []⟩) ∨
    (Tabled file ∧ Typed file ∧ ¬ InRange file ∧ load file = .error .outOfBounds) ∨
    (Tabled file ∧ Typed file ∧ InRange file ∧
      load file = .ok ⟨transitions file, types file (typecnt file), text file⟩) := by
  by_cases htabled : Tabled file
  case neg => exact Or.inl ⟨htabled, load_of_not_tabled htabled⟩
  by_cases htyped : Typed file
  case neg => exact Or.inr (Or.inl ⟨htabled, htyped, load_of_not_typed htabled htyped⟩)
  refine Or.inr (Or.inr ?_)
  by_cases hindex : ∀ j ∈ indices file, j < typecnt file
  case neg =>
    have hfault : ∃ j ∈ indices file, typecnt file ≤ j := by
      simpa only [not_forall, Nat.not_lt, exists_prop] using hindex
    exact Or.inl ⟨htabled, htyped, fun h => hindex h.1,
      load_fault_of_index htabled htyped hfault⟩
  by_cases hcount : 0 ≤ charcnt file
  · exact Or.inr ⟨htabled, htyped, ⟨hindex, hcount⟩, load_of_typed htabled htyped hindex hcount⟩
  · exact Or.inl ⟨htabled, htyped, fun h => hcount h.2,
      load_fault_of_count htabled htyped hindex (Int.not_le.mp hcount)⟩

end Readers

/-! ## What the conversions read -/

/-- The position of the transition that is taken at `t`, whatever the order of the times. -/
def selected (times : List Int) (t : Int) : Option Nat :=
  if times.head?.all (t < ·) then none
  else
    let p := lowerBound (· < t) times
    if times[p]? = some t then some p else some (p - 1)

namespace ZoneData

variable {data : ZoneData} {t : Int} {type : Localtime}

theorem findTransition_selected
    (hfront : ∃ front, data.transitions[0]? = some front ∧ front.gmttime ≤ t) :
    ∃ i x, findTransition data.transitions ⟨t, 0, 0⟩ ⟨true⟩ = .ok x ∧
      data.transitions[i]? = some x ∧
      selected (data.transitions.map Transition.gmttime) t = some i := by
  obtain ⟨front, hzero, hle⟩ := hfront
  obtain ⟨i, x, hfind, hx, _, hwhich⟩ :=
    @findTransition_ok ⟨true⟩ ⟨t, 0, 0⟩ data.transitions ⟨front, hzero, hle⟩
  refine ⟨i, x, hfind, hx, ?_⟩
  have hhead : (data.transitions.map Transition.gmttime).head?.all (t < ·) = false := by
    rw [List.head?_map, List.head?_eq_getElem?, hzero]
    simpa using hle
  have hposition : lowerBound (· < t) (data.transitions.map Transition.gmttime) =
      lowerBound (fun x => Comp.less ⟨true⟩ x ⟨t, 0, 0⟩) data.transitions :=
    lowerBound_map _ _ _
  simp only [selected, hhead, Bool.false_eq_true, if_false, hposition, List.getElem?_map]
  rcases hwhich with ⟨hi, hkey⟩ | ⟨hi, hnext⟩
  · rw [← hi, hx, Option.map_some, if_pos]
    exact congrArg some hkey
  · rw [← hi, if_neg, Nat.add_sub_cancel]
    intro hat
    obtain ⟨y, hy, hyt⟩ := Option.map_eq_some_iff.mp hat
    have hlt : t < y.gmttime := hnext y hy
    omega

/-- Any lookup finds a type, if there is one. -/
theorem findLocaltime_ok (hindexed : data.Indexed) (hne : data.localtimes ≠ [])
    (sentry : Transition) (comp : Comp) : ∃ type, findLocaltime data sentry comp = .ok type := by
  unfold findLocaltime
  cases htest : data.transitions.head?.all (comp.less sentry) with
  | true =>
      obtain ⟨type, rest, hcons⟩ := List.exists_cons_of_ne_nil hne
      exact ⟨type, readAt_eq_ok_iff.mpr ⟨Int.le_refl 0, by rw [hcons]; rfl⟩⟩
  | false =>
      obtain ⟨i, x, hfind, hx, _⟩ := findTransition_ok (head_all_less_eq_false_iff.mp htest)
      obtain ⟨type, _, hread⟩ := hindexed.exists_typeOf (List.mem_of_getElem? hx)
      exact ⟨type, by simp only [Bool.false_eq_true, if_false, hfind, ok_bind, hread]⟩

theorem readAt_localtimes_iff {x : Transition} :
    readAt data.localtimes x.localtimeIdx = .ok type ↔ data.typeOf x = some type := by
  rw [readAt_eq_ok_iff, typeOf]
  by_cases hneg : x.localtimeIdx < 0
  · simp [hneg, Int.not_le.mpr hneg]
  · simp [hneg, Int.not_lt.mp hneg]

/-- The first type is taken at some time, and so is that of each transition that is selected. -/
theorem exists_findLocaltime_iff :
    (∃ t, findLocaltime data ⟨t, 0, 0⟩ ⟨true⟩ = .ok type) ↔
      data.localtimes[0]? = some type ∨
      ∃ t i x, selected (data.transitions.map Transition.gmttime) t = some i ∧
        data.transitions[i]? = some x ∧ data.typeOf x = some type := by
  constructor
  · rintro ⟨t, hfind⟩
    unfold findLocaltime at hfind
    cases htest : data.transitions.head?.all (Comp.less ⟨true⟩ ⟨t, 0, 0⟩) with
    | true =>
        rw [htest, if_pos rfl] at hfind
        exact Or.inl (readAt_eq_ok_iff.mp hfind).2
    | false =>
        obtain ⟨i, x, hx, hget, hselected⟩ :=
          @findTransition_selected data t (head_all_less_eq_false_iff.mp htest)
        simp only [htest, Bool.false_eq_true, if_false, hx, ok_bind] at hfind
        exact Or.inr ⟨t, i, x, hselected, hget, readAt_localtimes_iff.mp hfind⟩
  · rintro (hfirst | ⟨t, i, x, hselected, hget, htype⟩)
    · obtain ⟨t, ht⟩ : ∃ t, data.transitions.head?.all (Comp.less ⟨true⟩ ⟨t, 0, 0⟩) = true := by
        cases hhead : data.transitions.head? with
        | none => exact ⟨0, rfl⟩
        | some front =>
            refine ⟨front.gmttime - 1, Comp.less_iff.mpr ?_⟩
            change front.gmttime - 1 < front.gmttime
            omega
      refine ⟨t, ?_⟩
      rw [findLocaltime, if_pos ht]
      exact readAt_eq_ok_iff.mpr ⟨Int.le_refl 0, hfirst⟩
    · refine ⟨t, ?_⟩
      have htest : data.transitions.head?.all (Comp.less ⟨true⟩ ⟨t, 0, 0⟩) = false := by
        by_contra htrue
        rw [Bool.not_eq_false] at htrue
        have hnone : selected (data.transitions.map Transition.gmttime) t = none := by
          rw [selected, List.head?_map, Option.all_map]
          exact if_pos htrue
        rw [hnone] at hselected
        exact absurd hselected (by simp)
      obtain ⟨i', x', hx', hget', hselected'⟩ :=
        @findTransition_selected data t (head_all_less_eq_false_iff.mp htest)
      rw [hselected, Option.some.injEq] at hselected'
      rw [← hselected', hget, Option.some.injEq] at hget'
      rw [← hget'] at hx'
      simp only [findLocaltime, htest, Bool.false_eq_true, if_false, hx', ok_bind]
      exact readAt_localtimes_iff.mpr htype

/-- Every conversion works if and only if there is a type, and the abbreviation exists of every
type that some time takes. -/
theorem conversions_ok_iff (hindexed : data.Indexed) :
    (∀ t, ∃ tm, data.toLocalTime t = .ok tm) ∧ (∀ tm, ∃ t, data.fromLocalTime tm = .ok t) ↔
      data.localtimes ≠ [] ∧
      ∀ type, (∃ t, findLocaltime data ⟨t, 0, 0⟩ ⟨true⟩ = .ok type) → data.Named type := by
  constructor
  · rintro ⟨hto, _⟩
    constructor
    · intro hnil
      have hempty : data.transitions = [] := by
        by_contra hne
        obtain ⟨x, rest, hcons⟩ := List.exists_cons_of_ne_nil hne
        have hrange := hindexed x (by rw [hcons]; exact List.mem_cons_self)
        rw [hnil, List.length_nil] at hrange
        omega
      obtain ⟨tm, htm⟩ := hto 0
      have hread : readAt ([] : List Localtime) 0 = .error .outOfBounds := rfl
      simp [toLocalTime, findLocaltime, hempty, hnil, hread] at htm
    · rintro type ⟨t, hfind⟩
      by_contra hnamed
      obtain ⟨tm, htm⟩ := hto t
      rw [toLocalTime_of_not_named hfind hnamed] at htm
      exact absurd htm (by simp)
  · rintro ⟨hne, hnamed⟩
    have hto : ∀ t, ∃ tm, data.toLocalTime t = .ok tm := by
      intro t
      obtain ⟨type, hfind⟩ := findLocaltime_ok hindexed hne ⟨t, 0, 0⟩ ⟨true⟩
      obtain ⟨zone, htm⟩ := toLocalTime_of_named hfind (hnamed type ⟨t, hfind⟩)
      exact ⟨_, htm⟩
    refine ⟨hto, ?_⟩
    intro tm
    obtain ⟨type, hfind⟩ := findLocaltime_ok hindexed hne ⟨0, timegm tm, 0⟩ ⟨false⟩
    obtain ⟨seconds, hseconds⟩ : ∃ seconds, data.correction tm (timegm tm) type = .ok seconds := by
      unfold correction
      by_cases hdst : tm.tm_isdst ≠ 0
      · obtain ⟨tryTm, htry⟩ := hto (timegm tm - type.gmtOffset)
        rw [if_pos hdst, htry, ok_bind]
        by_cases hsame : tryTm.tm_isdst = 0 ∧ tryTm.tm_hour = tm.tm_hour ∧
            tryTm.tm_min = tm.tm_min
        · exact ⟨_, if_pos hsame⟩
        · exact ⟨_, if_neg hsame⟩
      · exact ⟨_, if_neg hdst⟩
    refine ⟨seconds - type.gmtOffset, ?_⟩
    simp only [fromLocalTime, hfind, ok_bind, hseconds]
    rfl

end ZoneData

/-! ## The usable files -/

/-- The zone can be made, and if it says it is valid, every conversion works: it reads existing
elements only and stops nowhere. -/
def Usable (content : Option (List UInt8)) : Prop :=
  ∃ zone, TimeZone.new content = .ok zone ∧
    (zone.valid = true → (∀ t, ∃ tm, zone.toLocalTime t = .ok tm) ∧
      ∀ tm, ∃ t, zone.fromLocalTime tm = .ok t)

/-- The index of the abbreviation of the type at `j`. -/
def abbrindAt (file : List UInt8) (j : Nat) : Nat := uint8At file (typesBegin file + j * 6 + 5)

/-- The header, the times, the indices and the first type are complete; if all types are, every
index is that of a type and the length of the text is not negative; and the text, which counts
as empty if it is not complete, holds the abbreviation of every type that is taken. -/
structure Sound (file : List UInt8) : Prop where
  tabled : Tabled file
  firstType : 1 ≤ typecnt file ∧ typesBegin file + 6 ≤ file.length
  inRange : Typed file → InRange file
  firstNamed : abbrindAt file 0 ≤ (text file).length
  selectedNamed : Typed file → ∀ t i j, selected (times file) t = some i →
    (indices file)[i]? = some j → abbrindAt file j ≤ (text file).length

section Usable

variable {file : List UInt8}

theorem length_types (file : List UInt8) (n : Nat) : (types file n).length = n := by
  rw [types, List.length_map, List.length_range]

theorem getElem?_types {n j : Nat} (h : j < n) :
    (types file n)[j]? = some (typeAt file (typesBegin file + j * 6)) := by
  rw [types, List.getElem?_map, List.getElem?_range h, Option.map_some]

theorem named_typeAt_iff {data : ZoneData} {j : Nat} :
    data.Named (typeAt file (typesBegin file + j * 6)) ↔
      abbrindAt file j ≤ data.abbreviation.length := by
  simp only [ZoneData.Named, typeAt, abbrindAt]
  omega

theorem map_gmttime_transitions : (transitions file).map Transition.gmttime = times file := by
  rw [transitions, List.map_map]
  have hfst : Transition.gmttime ∘ transitionOf (types file (typecnt file)) = Prod.fst := rfl
  rw [hfst, List.map_fst_zip]
  rw [times, indices, List.length_map, List.length_map]

theorem getElem?_transitions {i : Nat} {x : Transition} (hx : (transitions file)[i]? = some x) :
    ∃ j, (indices file)[i]? = some j ∧ x.localtimeIdx = j := by
  rw [transitions, List.getElem?_map] at hx
  obtain ⟨entry, hentry, rfl⟩ := Option.map_eq_some_iff.mp hx
  exact ⟨entry.2, (List.getElem?_zip_eq_some.mp hentry).2, rfl⟩

theorem exists_transition {i j : Nat} (hj : (indices file)[i]? = some j) :
    ∃ x, (transitions file)[i]? = some x ∧ x.localtimeIdx = j := by
  obtain ⟨hlt, _⟩ := List.getElem?_eq_some_iff.mp hj
  have hlength : (times file).length = (indices file).length := by
    rw [times, indices, List.length_map, List.length_map]
  have hentry : ((times file).zip (indices file))[i]? = some ((times file)[i], j) :=
    List.getElem?_zip_eq_some.mpr ⟨List.getElem?_eq_getElem _, hj⟩
  refine ⟨transitionOf (types file (typecnt file)) ((times file)[i], j), ?_, rfl⟩
  rw [transitions, List.getElem?_map, hentry, Option.map_some]

/-- The local times are those of the types, so `TimeZone::Data` is as the conversions expect. -/
theorem load_localtime {data : ZoneData} (hload : load file = .ok data) :
    ∀ x ∈ data.transitions, ∀ type, data.typeOf x = some type →
      x.localtime = x.gmttime + type.gmtOffset := by
  intro x hx type htype
  obtain ⟨_, hspec⟩ | ⟨_, _, hspec⟩ | ⟨_, _, _, hspec⟩ | ⟨_, _, _, hspec⟩ := load_spec file
  · obtain rfl := Except.ok.inj (hload.symm.trans hspec)
    exact absurd hx List.not_mem_nil
  · obtain rfl := Except.ok.inj (hload.symm.trans hspec)
    exact absurd hx List.not_mem_nil
  · exact absurd (hload.symm.trans hspec) (by simp)
  · obtain rfl := Except.ok.inj (hload.symm.trans hspec)
    obtain ⟨entry, hentry, rfl⟩ := List.mem_map.mp hx
    have hget : (types file (typecnt file))[entry.2]? = some type := htype
    simp only [transitionOf, hget, Option.elim_some]

/-- The types that some time takes, where the transitions are those of the file. -/
theorem taken_iff {type : Localtime} {l : List UInt8} :
    (∃ t, findLocaltime ⟨transitions file, types file (typecnt file), l⟩ ⟨t, 0, 0⟩ ⟨true⟩ =
        .ok type) ↔
      ∃ j, (types file (typecnt file))[j]? = some type ∧
        (j = 0 ∨ ∃ t i, selected (times file) t = some i ∧ (indices file)[i]? = some j) := by
  rw [ZoneData.exists_findLocaltime_iff, map_gmttime_transitions]
  constructor
  · rintro (hfirst | ⟨t, i, x, hselected, hx, htype⟩)
    · exact ⟨0, hfirst, Or.inl rfl⟩
    · obtain ⟨j, hj, hindex⟩ := getElem?_transitions hx
      refine ⟨j, ?_, Or.inr ⟨t, i, hselected, hj⟩⟩
      rw [ZoneData.typeOf, hindex, if_neg (by omega), Int.toNat_natCast] at htype
      exact htype
  · rintro ⟨j, htype, rfl | ⟨t, i, hselected, hj⟩⟩
    · exact Or.inl htype
    · obtain ⟨x, hx, hindex⟩ := exists_transition hj
      refine Or.inr ⟨t, i, x, hselected, hx, ?_⟩
      rw [ZoneData.typeOf, hindex, if_neg (by omega), Int.toNat_natCast]
      exact htype

theorem usable_some_iff : Usable (some file) ↔ ∃ data, load file = .ok data ∧
    (∀ t, ∃ tm, data.toLocalTime t = .ok tm) ∧ ∀ tm, ∃ t, data.fromLocalTime tm = .ok t := by
  unfold Usable
  cases hload : load file with
  | error reason => simp [TimeZone.new, readTimeZoneFile, hload]
  | ok data =>
      have hnew : TimeZone.new (some file) = .ok ⟨some data⟩ := by
        simp only [TimeZone.new, readTimeZoneFile, hload, ok_bind]
        rfl
      rw [hnew]
      constructor
      · rintro ⟨zone, hzone, hall⟩
        obtain rfl := Except.ok.inj hzone
        exact ⟨data, rfl, hall rfl⟩
      · rintro ⟨data', hdata, hall⟩
        obtain rfl := Except.ok.inj hdata
        exact ⟨_, rfl, fun _ => hall⟩

/-- Where not all types are there, only the first is ever taken. -/
theorem usable_of_not_typed_iff (htabled : Tabled file) (htyped : ¬ Typed file) :
    Usable (some file) ↔ Sound file := by
  have htext : text file = [] := if_neg fun hall => htyped hall.1
  have hcount : 1 ≤ typecnt file := by
    have htable := htabled.table
    unfold Typed textBegin at htyped
    omega
  have hindexed : ZoneData.Indexed
      ⟨[], types file ((file.length - typesBegin file) / 6), []⟩ := fun x hx =>
    absurd hx List.not_mem_nil
  rw [usable_some_iff, load_of_not_typed htabled htyped]
  constructor
  · rintro ⟨data, hdata, hall⟩
    obtain rfl := Except.ok.inj hdata
    obtain ⟨hne, hnamed⟩ := (ZoneData.conversions_ok_iff hindexed).mp hall
    have hpos : 0 < (file.length - typesBegin file) / 6 := by
      have h := List.length_pos_of_ne_nil hne
      rwa [length_types] at h
    have hfirst := hnamed _ (ZoneData.exists_findLocaltime_iff.mpr (Or.inl (getElem?_types hpos)))
    rw [named_typeAt_iff] at hfirst
    refine ⟨htabled, ⟨hcount, by omega⟩, fun h => absurd h htyped, ?_, fun h => absurd h htyped⟩
    rw [htext]
    exact hfirst
  · rintro ⟨_, ⟨_, hfirstType⟩, _, hfirst, _⟩
    rw [htext] at hfirst
    have hpos : 0 < (file.length - typesBegin file) / 6 := by omega
    refine ⟨_, rfl, (ZoneData.conversions_ok_iff hindexed).mpr ⟨?_, ?_⟩⟩
    · refine List.ne_nil_of_length_pos ?_
      rwa [length_types]
    · intro type htaken
      rcases ZoneData.exists_findLocaltime_iff.mp htaken with htype | ⟨_, i, x, _, hx, _⟩
      · rw [getElem?_types hpos, Option.some.injEq] at htype
        rw [← htype, named_typeAt_iff]
        exact hfirst
      · exact absurd hx (by simp)

theorem usable_of_typed_iff (htabled : Tabled file) (htyped : Typed file)
    (hrange : InRange file) : Usable (some file) ↔ Sound file := by
  have hindexed : ZoneData.Indexed
      ⟨transitions file, types file (typecnt file), text file⟩ := by
    intro x hx
    obtain ⟨i, hi⟩ := List.mem_iff_getElem?.mp hx
    obtain ⟨j, hj, hindex⟩ := getElem?_transitions hi
    have hlt := hrange.1 j (List.mem_of_getElem? hj)
    rw [hindex]
    simp only [length_types]
    omega
  rw [usable_some_iff, load_of_typed htabled htyped hrange.1 hrange.2]
  constructor
  · rintro ⟨data, hdata, hall⟩
    obtain rfl := Except.ok.inj hdata
    obtain ⟨hne, hnamed⟩ := (ZoneData.conversions_ok_iff hindexed).mp hall
    have hpos : 0 < typecnt file := by
      have h := List.length_pos_of_ne_nil hne
      rwa [length_types] at h
    refine ⟨htabled, ⟨hpos, ?_⟩, fun _ => hrange, ?_, ?_⟩
    · unfold Typed textBegin at htyped
      omega
    · have hfirst := hnamed _ (taken_iff.mpr ⟨0, getElem?_types hpos, Or.inl rfl⟩)
      rwa [named_typeAt_iff] at hfirst
    · intro _ t i j hselected hj
      have hlt := hrange.1 j (List.mem_of_getElem? hj)
      have htype := hnamed _
        (taken_iff.mpr ⟨j, getElem?_types hlt, Or.inr ⟨t, i, hselected, hj⟩⟩)
      rwa [named_typeAt_iff] at htype
  · rintro ⟨_, ⟨hpos, _⟩, _, hfirst, hselectedNamed⟩
    refine ⟨_, rfl, (ZoneData.conversions_ok_iff hindexed).mpr ⟨?_, ?_⟩⟩
    · refine List.ne_nil_of_length_pos ?_
      rwa [length_types]
    · intro type htaken
      obtain ⟨j, htype, hwhich⟩ := taken_iff.mp htaken
      obtain ⟨hlt, _⟩ := List.getElem?_eq_some_iff.mp htype
      rw [length_types] at hlt
      rw [getElem?_types hlt, Option.some.injEq] at htype
      rw [← htype, named_typeAt_iff]
      rcases hwhich with rfl | ⟨t, i, hselected, hj⟩
      · exact hfirst
      · exact hselectedNamed htyped t i j hselected hj

end Usable

theorem empty_stops : ¬ ∃ tm, ZoneData.empty.toLocalTime 0 = .ok tm := by
  rintro ⟨tm, htm⟩
  have hstop : ZoneData.empty.toLocalTime 0 = .error .outOfBounds := rfl
  rw [hstop] at htm
  exact absurd htm (by simp)

/-- For every content of the zone file, a `TimeZone` made of it says it is valid; it is usable
exactly if the file exists and is sound. -/
theorem zone_usable_iff (content : Option (List UInt8)) :
    (∀ zone, TimeZone.new content = .ok zone → zone.valid = true) ∧
    (Usable content ↔ ∃ file, content = some file ∧ Sound file) := by
  constructor
  · intro zone hzone
    cases content with
    | none =>
        obtain rfl := Except.ok.inj hzone
        rfl
    | some file =>
        cases hload : load file with
        | error reason => simp [TimeZone.new, readTimeZoneFile, hload] at hzone
        | ok data =>
            simp only [TimeZone.new, readTimeZoneFile, hload, ok_bind] at hzone
            obtain rfl := Except.ok.inj hzone
            rfl
  · cases content with
    | none =>
        constructor
        · rintro ⟨zone, hzone, hall⟩
          obtain rfl := Except.ok.inj hzone
          exact absurd ((hall rfl).1 0) empty_stops
        · rintro ⟨file, hfile, _⟩
          exact absurd hfile (by simp)
    | some file =>
        simp only [Option.some.injEq, exists_eq_left']
        obtain ⟨hnot, hload⟩ | ⟨htabled, htyped, _⟩ | ⟨htabled, htyped, hrange, hload⟩ |
          ⟨htabled, htyped, hrange, _⟩ := load_spec file
        · refine iff_of_false ?_ fun h => hnot h.tabled
          rw [usable_some_iff, hload]
          rintro ⟨data, hdata, hto, _⟩
          obtain rfl := Except.ok.inj hdata
          exact empty_stops (hto 0)
        · exact usable_of_not_typed_iff htabled htyped
        · refine iff_of_false ?_ fun h => hrange (h.inRange htyped)
          rw [usable_some_iff, hload]
          rintro ⟨data, hdata, _⟩
          exact absurd hdata (by simp)
        · exact usable_of_typed_iff htabled htyped hrange

/-- A file with one type and no transition. -/
example : (TimeZone.new (some (ascii "TZif" ++ List.replicate 35 0 ++ [1, 0, 0, 0, 4] ++
    List.replicate 6 0 ++ ascii "UTC" ++ [0])) >>= (·.toLocalTime 0)) =
      .ok { gmtime 0 with tm_zone := ascii "UTC" } := by decide

/-- A zone file that cannot be opened gives a zone that says it is valid, and the first
conversion reads the first element of an empty vector. -/
theorem missing_zone_file_is_valid :
    ∃ zone, TimeZone.new none = .ok zone ∧ zone.valid = true ∧
      zone.toLocalTime 0 = .error .outOfBounds :=
  ⟨⟨some ZoneData.empty⟩, rfl, rfl, rfl⟩

end Muduo.Base
