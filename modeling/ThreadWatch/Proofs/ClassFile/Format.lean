import ThreadWatch.ClassFile.Basic
import ThreadWatch.Code.Attribute
import ThreadWatch.Proofs.Pool.Format

/-!
# Class files are read as they are written

Reading and writing are each other's inverse for attributes, members, method bodies and whole class
files: what can be written is read back, and only from the bytes that are written for it.
-/

namespace ThreadWatch

theorem countBytes_eq_ok {n : Nat} {cause : Damage} {bytes : Bytes} :
    countBytes n cause = .ok bytes ↔ n < 65536 ∧ bytes = beBytes 2 n := by
  unfold countBytes
  split
  next h => simp [h, eq_comm]
  next h => simp [h, damaged]

theorem be32_ofNat {n : Nat} (h : n < spellable 4) : be32 (UInt32.ofNat n) = beBytes 4 n := by
  rw [be32, UInt32.toNat_ofNat_of_lt' h]

namespace Attribute

theorem bytes_eq_ok {a : Attribute} {bytes : Bytes} :
    a.bytes = .ok bytes ↔ a.info.length < spellable 4 ∧
      bytes = be16 a.name ++ (beBytes 4 a.info.length ++ a.info) := by
  unfold Attribute.bytes
  rw [List.append_assoc]
  split
  next h => simp [h, eq_comm]
  next h => simp [h, damaged]

theorem spells_read : read.Spells fun a bytes => a.bytes = .ok bytes := by
  unfold read
  refine (Reader.spells_u16.bind fun name => Reader.spells_u32.bind fun length =>
    (Reader.spells_take _).last _).congr fun a bytes => ?_
  rw [bytes_eq_ok]
  constructor
  · rintro ⟨name, _, _, rfl, ⟨length, _, _, rfl, ⟨info, ⟨hlength, rfl⟩, rfl⟩, rfl⟩, rfl⟩
    rw [hlength]
    exact ⟨length.toNat_lt, rfl⟩
  · rintro ⟨hlt, rfl⟩
    refine ⟨a.name, _, _, rfl, ⟨UInt32.ofNat a.info.length, _, _, rfl, ⟨a.info, ⟨?_, rfl⟩, rfl⟩,
      rfl⟩, ?_⟩
    · exact (UInt32.toNat_ofNat_of_lt' hlt).symm
    · rw [be32_ofNat hlt]

theorem listBytes_eq_ok {attributes : List Attribute} {written : Bytes} :
    listBytes attributes = .ok written ↔ attributes.length < 65536 ∧
      ∃ tail, Written bytes attributes tail ∧ written = beBytes 2 attributes.length ++ tail := by
  unfold listBytes Written
  simp only [bind_eq_ok, countBytes_eq_ok, pure_eq_ok]
  constructor
  · rintro ⟨_, ⟨hlt, rfl⟩, parts, hparts, rfl⟩
    exact ⟨hlt, parts.flatten, ⟨parts, hparts, rfl⟩, rfl⟩
  · rintro ⟨hlt, _, ⟨parts, hparts, rfl⟩, rfl⟩
    exact ⟨_, ⟨hlt, rfl⟩, parts, hparts, rfl⟩

theorem spells_readList :
    readList.Spells fun attributes bytes => listBytes attributes = .ok bytes :=
  spells_read.counted.congr fun _ _ => listBytes_eq_ok.symm

theorem isNamed_iff {a : Attribute} {pool : Pool} {name : String} :
    a.isNamed pool name = true ↔ pool.get a.name = .ok (.utf8 name.toUTF8.toList) := by
  rw [← Pool.utf8Bytes_eq_ok]
  unfold isNamed
  split
  next text htext => simp [htext]
  next fault hfault => simp [hfault]

end Attribute

namespace Member

theorem spells_read : read.Spells fun m bytes => m.bytes = .ok bytes := by
  unfold read
  refine (Reader.spells_u16.bind fun access => Reader.spells_u16.bind fun name =>
    Reader.spells_u16.bind fun descriptor => Attribute.spells_readList.last _).congr
      fun m bytes => ?_
  unfold Member.bytes
  simp only [bind_eq_ok, pure_eq_ok]
  constructor
  · rintro ⟨access, _, _, rfl, ⟨name, _, _, rfl, ⟨descriptor, _, tail, rfl,
      ⟨attributes, htail, rfl⟩, rfl⟩, rfl⟩, rfl⟩
    exact ⟨tail, htail, by simp⟩
  · rintro ⟨tail, htail, rfl⟩
    exact ⟨m.access, _, _, rfl, ⟨m.name, _, _, rfl, ⟨m.descriptor, _, tail, rfl,
      ⟨m.attributes, htail, rfl⟩, rfl⟩, rfl⟩, by simp⟩

end Member

namespace ClassFile

theorem countedBytes_eq_ok {α : Type} {what : String} {items : List α}
    {item : α → Except Fault Bytes} {written : Bytes} :
    countedBytes what items item = .ok written ↔ items.length < 65536 ∧
      ∃ tail, Written item items tail ∧ written = beBytes 2 items.length ++ tail := by
  unfold countedBytes Written
  simp only [bind_eq_ok, countBytes_eq_ok, pure_eq_ok]
  constructor
  · rintro ⟨_, ⟨hlt, rfl⟩, parts, hparts, rfl⟩
    exact ⟨hlt, parts.flatten, ⟨parts, hparts, rfl⟩, rfl⟩
  · rintro ⟨hlt, _, ⟨parts, hparts, rfl⟩, rfl⟩
    exact ⟨_, ⟨hlt, rfl⟩, parts, hparts, rfl⟩

theorem spells_readCounted {α : Type} {item : Reader α} {write : α → Except Fault Bytes}
    (h : item.Spells fun a bytes => write a = .ok bytes) (what : String) :
    (readCounted item).Spells fun items bytes => countedBytes what items write = .ok bytes :=
  h.counted.congr fun _ _ => countedBytes_eq_ok.symm

theorem spells_index :
    Cursor.u16.Spells fun index bytes => (.ok (be16 index) : Except Fault Bytes) = .ok bytes :=
  Reader.spells_u16.ok

theorem bytes_eq_ok {c : ClassFile} {bytes : Bytes} :
    c.bytes = .ok bytes ↔ ∃ pool interfaces fields methods attributes,
      c.pool.bytes = .ok pool ∧
      countedBytes "interfaces" c.interfaces (fun index => .ok (be16 index)) = .ok interfaces ∧
      countedBytes "fields" c.fields Member.bytes = .ok fields ∧
      countedBytes "methods" c.methods Member.bytes = .ok methods ∧
      Attribute.listBytes c.attributes = .ok attributes ∧
      bytes = be32 magic ++ be16 c.minor ++ be16 c.major ++ pool ++ be16 c.access ++
        be16 c.thisClass ++ be16 c.superClass ++ interfaces ++ fields ++ methods ++ attributes := by
  unfold ClassFile.bytes
  simp only [bind_eq_ok, pure_eq_ok]
  constructor
  · rintro ⟨pool, hpool, interfaces, hinterfaces, fields, hfields, methods, hmethods, attributes,
      hattributes, rfl⟩
    exact ⟨pool, interfaces, fields, methods, attributes, hpool, hinterfaces, hfields, hmethods,
      hattributes, rfl⟩
  · rintro ⟨pool, interfaces, fields, methods, attributes, hpool, hinterfaces, hfields, hmethods,
      hattributes, rfl⟩
    exact ⟨pool, hpool, interfaces, hinterfaces, fields, hfields, methods, hmethods, attributes,
      hattributes, rfl⟩

/-- A class file with a shaped pool is read back from its bytes, if these are all there is. -/
theorem spells_read : read.SpellsAll fun c bytes => c.pool.IsShaped ∧ c.bytes = .ok bytes := by
  unfold read
  refine (Reader.SpellsAll.bind Reader.spells_u32 fun found =>
    Reader.SpellsAll.checked (Reader.fails_damage _)
      (Reader.SpellsAll.bind Reader.spells_u16 fun minor =>
      Reader.SpellsAll.bind Reader.spells_u16 fun major =>
      Reader.SpellsAll.bind Pool.spells_read fun pool =>
      Reader.SpellsAll.bind Reader.spells_u16 fun access =>
      Reader.SpellsAll.bind Reader.spells_u16 fun thisClass =>
      Reader.SpellsAll.bind Reader.spells_u16 fun superClass =>
      Reader.SpellsAll.bind (spells_readCounted spells_index "interfaces") fun interfaces =>
      Reader.SpellsAll.bind (spells_readCounted Member.spells_read "fields") fun fields =>
      Reader.SpellsAll.bind (spells_readCounted Member.spells_read "methods") fun methods =>
      Reader.SpellsAll.bind Attribute.spells_readList fun attributes =>
      Reader.SpellsAll.finish (fun left => Reader.fails_damage _) _)).congr fun c bytes => ?_
  rw [bytes_eq_ok]
  constructor
  · rintro ⟨_, _, _, rfl, ⟨hmagic, minor, _, _, rfl, ⟨major, _, _, rfl, ⟨p, pool, _,
      ⟨hshaped, hpool⟩, ⟨access, _, _, rfl, ⟨thisClass, _, _, rfl, ⟨superClass, _, _, rfl,
      ⟨_, interfaces, _, hinterfaces, ⟨_, fields, _, hfields, ⟨_, methods, _, hmethods,
      ⟨_, attributes, _, hattributes, ⟨rfl, rfl⟩, rfl⟩, rfl⟩, rfl⟩, rfl⟩, rfl⟩, rfl⟩, rfl⟩, rfl⟩,
      rfl⟩, rfl⟩, rfl⟩
    refine ⟨hshaped, pool, interfaces, fields, methods, attributes, hpool, hinterfaces, hfields,
      hmethods, hattributes, ?_⟩
    obtain rfl := not_not.mp hmagic
    simp only [List.append_assoc, List.append_nil]
  · rintro ⟨hshaped, pool, interfaces, fields, methods, attributes, hpool, hinterfaces, hfields,
      hmethods, hattributes, rfl⟩
    refine ⟨magic, _, _, rfl, ⟨by simp, c.minor, _, _, rfl, ⟨c.major, _, _, rfl, ⟨c.pool, pool, _,
      ⟨hshaped, hpool⟩, ⟨c.access, _, _, rfl, ⟨c.thisClass, _, _, rfl, ⟨c.superClass, _, _, rfl,
      ⟨c.interfaces, interfaces, _, hinterfaces, ⟨c.fields, fields, _, hfields,
      ⟨c.methods, methods, _, hmethods, ⟨c.attributes, attributes, [], hattributes, ⟨rfl, rfl⟩,
      rfl⟩, rfl⟩, rfl⟩, rfl⟩, rfl⟩, rfl⟩, rfl⟩, rfl⟩, rfl⟩, rfl⟩, ?_⟩
    simp only [List.append_assoc, List.append_nil]

/-- What is accepted is a written class file whose own name resolves. -/
theorem parse_eq_ok {data : Bytes} {c : ClassFile} :
    parse data = .ok c ↔ c.pool.IsShaped ∧ c.bytes = .ok data ∧ ∃ name, c.name = .ok name := by
  have hread : read.run' data = .ok c ↔ c.pool.IsShaped ∧ c.bytes = .ok data :=
    spells_read.run'_eq_ok
  unfold parse
  cases data with
  | nil =>
    constructor
    · intro h
      cases h
    · rintro ⟨_, hbytes, _⟩
      obtain ⟨pool, interfaces, fields, methods, attributes, _, _, _, _, _, hdata⟩ :=
        bytes_eq_ok.mp hbytes
      have hlength := congrArg List.length hdata
      simp at hlength
      omega
  | cons b data =>
    show (read.run' (b :: data) >>= fun c => c.name >>= fun _ => pure c) = .ok c ↔ _
    simp only [bind_eq_ok, pure_eq_ok]
    constructor
    · rintro ⟨c, hc, name, hname, rfl⟩
      obtain ⟨hshaped, hbytes⟩ := hread.mp hc
      exact ⟨hshaped, hbytes, name, hname⟩
    · rintro ⟨hshaped, hbytes, name, hname⟩
      exact ⟨c, hread.mpr ⟨hshaped, hbytes⟩, name, hname, rfl⟩

/-- Reading and writing undo each other: a class is read from the bytes that are written for it, if
its pool is well formed and it has a name, and from no others. -/
theorem parse_iff_bytes {data : Bytes} {c : ClassFile} :
    parse data = .ok c ↔
      c.pool.IsWellFormed ∧ (∃ name, c.name = .ok name) ∧ c.bytes = .ok data := by
  rw [parse_eq_ok, Pool.isShaped_iff, and_comm (a := c.bytes = _)]

end ClassFile

namespace ExceptionEntry

theorem spells_read : read.Spells fun e bytes => bytes = e.bytes := by
  unfold read
  refine (Reader.spells_u16.bind fun start => Reader.spells_u16.bind fun stop =>
    Reader.spells_u16.bind fun handler => Reader.spells_u16.last _).congr fun e bytes => ?_
  unfold ExceptionEntry.bytes
  constructor
  · rintro ⟨start, _, _, rfl, ⟨stop, _, _, rfl, ⟨handler, _, _, rfl, ⟨catchType, rfl, rfl⟩, rfl⟩,
      rfl⟩, rfl⟩
    simp
  · rintro rfl
    exact ⟨e.start, _, _, rfl, ⟨e.stop, _, _, rfl, ⟨e.handler, _, _, rfl, ⟨e.catchType, rfl, rfl⟩,
      rfl⟩, rfl⟩, by simp⟩

end ExceptionEntry

namespace CodeAttribute

theorem bytes_eq_ok {c : CodeAttribute} {bytes : Bytes} :
    c.bytes = .ok bytes ↔ c.code.length ≤ 65535 ∧ c.exceptions.length < 65536 ∧
      ∃ attributes, Attribute.listBytes c.attributes = .ok attributes ∧
        bytes = be16 c.maxStack ++ be16 c.maxLocals ++ beBytes 4 c.code.length ++ c.code ++
          (beBytes 2 c.exceptions.length ++ c.exceptions.flatMap ExceptionEntry.bytes) ++
          attributes := by
  unfold CodeAttribute.bytes
  split
  next hlong =>
    constructor
    · intro h
      cases h
    · rintro ⟨hle, _⟩
      omega
  next hlong =>
    simp only [bind_eq_ok, pure_eq_ok, countBytes_eq_ok]
    constructor
    · rintro ⟨_, ⟨hcount, rfl⟩, attributes, hattributes, rfl⟩
      exact ⟨by omega, hcount, attributes, hattributes, by simp⟩
    · rintro ⟨_, hcount, attributes, hattributes, rfl⟩
      exact ⟨_, ⟨hcount, rfl⟩, attributes, hattributes, by simp⟩

theorem length_checked_iff {length : UInt32} :
    ¬ (length = 0 || length > 65535) ↔ 0 < length.toNat ∧ length.toNat ≤ 65535 := by
  rw [Bool.or_eq_true, decide_eq_true_eq, decide_eq_true_eq, ← UInt32.toNat_inj, GT.gt,
    UInt32.lt_iff_toNat_lt]
  change ¬ (length.toNat = 0 ∨ 65535 < length.toNat) ↔ _
  omega

/-- A body with code is read back from its bytes, if these are all there is. -/
theorem spells_read : read.SpellsAll fun c bytes => 0 < c.code.length ∧ c.bytes = .ok bytes := by
  unfold read
  refine (Reader.SpellsAll.bind Reader.spells_u16 fun maxStack =>
    Reader.SpellsAll.bind Reader.spells_u16 fun maxLocals =>
    Reader.SpellsAll.bind Reader.spells_u32 fun length =>
    Reader.SpellsAll.checked (Reader.fails_damage _)
      (Reader.SpellsAll.bind (Reader.spells_take _) fun code =>
      Reader.SpellsAll.bind Reader.spells_u16 fun count =>
      Reader.SpellsAll.bind (ExceptionEntry.spells_read.timesOf _) fun exceptions =>
      Reader.SpellsAll.bind Attribute.spells_readList fun attributes =>
      Reader.SpellsAll.finish (fun left => Reader.fails_damage _) _)).congr fun c bytes => ?_
  rw [bytes_eq_ok]
  constructor
  · rintro ⟨maxStack, _, _, rfl, ⟨maxLocals, _, _, rfl, ⟨length, _, _, rfl, ⟨hlength, code, _, _,
      ⟨hcode, rfl⟩, ⟨count, _, _, rfl, ⟨exceptions, _, _, ⟨hexceptions, rfl⟩, ⟨_, attributes, _,
      hattributes, ⟨rfl, rfl⟩, rfl⟩, rfl⟩, rfl⟩, rfl⟩, rfl⟩, rfl⟩, rfl⟩
    obtain ⟨hpos, hle⟩ := length_checked_iff.mp hlength
    rw [hcode, hexceptions]
    refine ⟨hpos, hle, count.toNat_lt, attributes, hattributes, ?_⟩
    simp only [be16, be32, List.append_assoc, List.append_nil]
  · rintro ⟨hpos, hle, hcount, attributes, hattributes, rfl⟩
    have hwidth : spellable 4 = 4294967296 := rfl
    have hlength : (UInt32.ofNat c.code.length).toNat = c.code.length :=
      UInt32.toNat_ofNat_of_lt' (by change _ < 4294967296; omega)
    have hnumber : (UInt16.ofNat c.exceptions.length).toNat = c.exceptions.length :=
      UInt16.toNat_ofNat_of_lt' hcount
    refine ⟨c.maxStack, _, _, rfl, ⟨c.maxLocals, _, _, rfl, ⟨UInt32.ofNat c.code.length, _, _, rfl,
      ⟨?_, c.code, _, _, ⟨hlength.symm, rfl⟩, ⟨UInt16.ofNat c.exceptions.length, _, _, rfl,
      ⟨c.exceptions, _, _, ⟨hnumber.symm, rfl⟩, ⟨c.attributes, attributes, [], hattributes,
      ⟨rfl, rfl⟩, rfl⟩, rfl⟩, rfl⟩, rfl⟩, rfl⟩, rfl⟩, ?_⟩
    · rw [length_checked_iff, hlength]
      exact ⟨hpos, hle⟩
    · simp only [be32_ofNat (show c.code.length < spellable 4 by omega), be16_ofNat hcount,
        List.append_assoc, List.append_nil]

theorem parse_eq_ok {info : Bytes} {c : CodeAttribute} :
    parse info = .ok c ↔ 0 < c.code.length ∧ c.bytes = .ok info :=
  spells_read.run'_eq_ok

/-- Every count and length of the body fits the field that it is written in. -/
structure Fits (c : CodeAttribute) : Prop where
  code : c.code.length ≤ 65535
  exceptions : c.exceptions.length ≤ 65535
  attributes : c.attributes.length ≤ 65535
  payloads : ∀ a ∈ c.attributes, a.info.length < 4294967296

theorem exists_bytes_iff {c : CodeAttribute} : (∃ info, c.bytes = .ok info) ↔ c.Fits := by
  have hpayload : ∀ a : Attribute, (∃ part, a.bytes = .ok part) ↔ a.info.length < 4294967296 := by
    intro a
    simp only [Attribute.bytes_eq_ok, exists_and_left, exists_eq, and_true]
    rfl
  constructor
  · rintro ⟨info, h⟩
    obtain ⟨hcode, hexceptions, _, hlist, _⟩ := bytes_eq_ok.mp h
    obtain ⟨hattributes, tail, htail, _⟩ := Attribute.listBytes_eq_ok.mp hlist
    have hparts := exists_written_iff.mp ⟨tail, htail⟩
    exact ⟨hcode, by omega, by omega, fun a ha => (hpayload a).mp (hparts a ha)⟩
  · intro h
    have hexceptions := h.exceptions
    have hattributes := h.attributes
    obtain ⟨tail, htail⟩ :=
      exists_written_iff.mpr fun a ha => (hpayload a).mpr (h.payloads a ha)
    exact ⟨_, bytes_eq_ok.mpr ⟨h.code, by omega, _,
      Attribute.listBytes_eq_ok.mpr ⟨by omega, tail, htail, rfl⟩, rfl⟩⟩

/-- A body that is not empty is read from the bytes that are written for it, and from no others;
it can be written if it fits. -/
theorem parse_iff_written (info : Bytes) (c : CodeAttribute) :
    (parse info = .ok c ↔ c.code ≠ [] ∧ c.bytes = .ok info) ∧
      ((∃ written, c.bytes = .ok written) ↔ c.Fits) := by
  rw [parse_eq_ok, List.length_pos_iff]
  exact ⟨Iff.rfl, exists_bytes_iff⟩

end CodeAttribute

end ThreadWatch
