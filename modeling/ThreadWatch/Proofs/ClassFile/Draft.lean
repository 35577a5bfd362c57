import ThreadWatch.ClassFile.Draft
import ThreadWatch.Proofs.ClassFile.Format
import ThreadWatch.Proofs.Pool.Enlarging

/-!
# Drafts become the classes that were asked for

Whatever is asked of a draft, in whatever order, and whatever constants are put into its pool in
between: the class that it becomes is read again and says what was asked, and the indices that were
handed out on the way still stand for the same constants.
-/

namespace ThreadWatch

namespace Interning

open Pool

variable {α β : Type}

/-- What comes of it is good in the pool afterwards, and in any that this grows to. -/
def Gives (x : Interning α) (good : Pool → α → Prop) : Prop :=
  ∀ p q a, p.IsIndexed → x p = .ok a q → p.GrowsTo q ∧ ∀ r, q.GrowsTo r → good r a

theorem gives_pure (a : α) : (pure a : Interning α).Gives fun _ b => b = a := by
  intro p q b hp h
  obtain ⟨rfl, rfl⟩ := Stateful.pure_eq_ok.mp h
  exact ⟨.refl hp, fun _ _ => rfl⟩

theorem gives_ofExcept (x : Except Fault α) :
    (MonadExcept.ofExcept x : Interning α).Gives fun _ a => x = .ok a := by
  intro p q a hp h
  obtain ⟨hx, rfl⟩ := ofExcept_eq_ok.mp h
  exact ⟨.refl hp, fun _ _ => hx⟩

namespace Gives

variable {x : Interning α} {good : Pool → α → Prop}

theorem mono {good' : Pool → α → Prop} (h : x.Gives good) (himp : ∀ r a, good r a → good' r a) :
    x.Gives good' := by
  intro p q a hp hx
  obtain ⟨hgrown, hgood⟩ := h p q a hp hx
  exact ⟨hgrown, fun r hr => himp r a (hgood r hr)⟩

/-- What comes of the first step stays good while the second adds to the pool. -/
theorem bind {f : α → Interning β} {good' : α → Pool → β → Prop} (h : x.Gives good)
    (hf : ∀ a, (f a).Gives (good' a)) :
    (x >>= f).Gives fun r b => ∃ a, good r a ∧ good' a r b := by
  intro p q b hp hx
  obtain ⟨a, s, hs, hfa⟩ := Stateful.bind_eq_ok.mp hx
  obtain ⟨hfirst, hgood⟩ := h p s a hp hs
  obtain ⟨hsecond, hgood'⟩ := hf a s q b hfirst.indexed hfa
  exact ⟨hfirst.trans hsecond, fun r hr => ⟨a, hgood r (hsecond.trans hr), hgood' r hr⟩⟩

theorem mapM {f : α → Interning β} {good : α → Pool → β → Prop} {items : List α}
    (h : ∀ a ∈ items, (f a).Gives (good a)) :
    (items.mapM f).Gives fun r found => List.Forall₂ (fun a b => good a r b) items found := by
  induction items with
  | nil => exact (gives_pure []).mono fun r found hfound => hfound ▸ .nil
  | cons a rest ih =>
    rw [List.forall_mem_cons] at h
    rw [List.mapM_cons]
    refine (h.1.bind fun b => (ih h.2).bind fun found => gives_pure (b :: found)).mono ?_
    rintro r _ ⟨b, hb, found, hfound, rfl⟩
    exact .cons hb hfound

end Gives

theorem gives_addUtf8 (text : String) :
    (addUtf8 text).Gives fun r index => r.utf8Bytes index = .ok (ModifiedUtf8.encode text) := by
  intro p q index hp h
  have hfound := utf8Bytes_eq_ok.mpr (get_of_add hp h)
  exact ⟨(grows_add trivial).of_ok hp h, fun r hr => hr.utf8Bytes hfound⟩

theorem gives_addType (name : String) :
    (addType name).Gives fun r index => r.typeName index = .ok name := by
  intro p q index hp h
  exact ⟨(Symbol.isAddition_type name).grows.of_ok hp h,
    fun r hr => hr.typeName (typeName_of_addType hp h)⟩

end Interning

namespace Pool

theorem utf8_of_utf8Bytes {p : Pool} {index : UInt16} {text : String}
    (h : p.utf8Bytes index = .ok (ModifiedUtf8.encode text)) : p.utf8 index = .ok text :=
  utf8_eq_ok.mpr ⟨_, h, ModifiedUtf8.decode_encode text⟩

/-- No type is named at index zero. -/
theorem IsShaped.ne_zero_of_typeName {p : Pool} {index : UInt16} {name : String} (hp : p.IsShaped)
    (h : p.typeName index = .ok name) : index ≠ 0 := by
  rintro rfl
  obtain ⟨text, hget, _⟩ := typeName_eq_ok.mp h
  have hslot := get_eq_ok.mp hget
  rw [show (0 : UInt16).toNat = 0 from rfl, (isShaped_iff.mp hp).first] at hslot
  cases hslot

end Pool

/-! ### What a class says -/

/-- The attributes of a member with this body: the code alone, or none at all. -/
inductive IsBody (pool : Pool) : Option CodeAttribute → List Attribute → Prop
  | none : IsBody pool none []
  | some {body : CodeAttribute} {code : Attribute} : code.isNamed pool "Code" = true →
    CodeAttribute.parse code.info = .ok body → IsBody pool (some body) [code]

namespace ClassFile

/-- The member is the one that was asked for. -/
structure Shows (c : ClassFile) (asked : DraftMember) (m : Member) : Prop where
  access : m.access = asked.access
  name : c.memberName m = .ok asked.name
  descriptor : c.memberDescriptor m = .ok asked.descriptor
  body : IsBody c.pool asked.body m.attributes

end ClassFile

/-- If there is a body, then one with code. -/
def DraftMember.HasCode (m : DraftMember) : Prop := ∀ body, m.body = some body → body.code ≠ []

namespace Draft

open Interning

theorem toUTF8_code : "Code".toUTF8.toList = ModifiedUtf8.encode "Code" := by decide +kernel

/-- The attributes that a body becomes. -/
def bodyAttributes : Option CodeAttribute → Interning (List Attribute)
  | none => pure []
  | some body => do
    let code ← Pool.addUtf8 "Code"
    let info ← MonadExcept.ofExcept body.bytes
    return [⟨code, info⟩]

theorem buildMember_eq (m : DraftMember) : buildMember m = (do
    let name ← Pool.addUtf8 m.name
    let descriptor ← Pool.addUtf8 m.descriptor
    let attributes ← bodyAttributes m.body
    return ⟨m.access, name, descriptor, attributes⟩) := by
  unfold buildMember
  cases m.body with
  | none => rfl
  | some body => simp [bodyAttributes]

theorem gives_bodyAttributes {body : Option CodeAttribute}
    (h : ∀ code, body = some code → code.code ≠ []) :
    (bodyAttributes body).Gives fun r attributes => IsBody r body attributes := by
  cases body with
  | none => exact (gives_pure []).mono fun r attributes h => h ▸ .none
  | some body =>
    refine ((gives_addUtf8 "Code").bind fun code => (gives_ofExcept body.bytes).bind fun info =>
      gives_pure _).mono ?_
    rintro r _ ⟨code, hcode, info, hinfo, rfl⟩
    have hnamed : r.get code = .ok (.utf8 "Code".toUTF8.toList) := by
      rw [toUTF8_code]
      exact Pool.utf8Bytes_eq_ok.mp hcode
    have hpos := List.length_pos_iff.mpr (h body rfl)
    exact .some (Attribute.isNamed_iff.mpr hnamed) (CodeAttribute.parse_eq_ok.mpr ⟨hpos, hinfo⟩)

/-- A member is built as it was asked for, whatever class it comes to stand in. -/
theorem gives_buildMember {m : DraftMember} (hm : m.HasCode) :
    (buildMember m).Gives fun r member => ∀ c : ClassFile, c.pool = r → c.Shows m member := by
  rw [buildMember_eq]
  refine ((gives_addUtf8 m.name).bind fun name => (gives_addUtf8 m.descriptor).bind fun descriptor =>
    (gives_bodyAttributes hm).bind fun attributes => gives_pure _).mono ?_
  rintro r _ ⟨name, hname, descriptor, hdescriptor, attributes, hattributes, rfl⟩ c rfl
  exact ⟨rfl, Pool.utf8_of_utf8Bytes hname, Pool.utf8_of_utf8Bytes hdescriptor, hattributes⟩

/-- The index of a superclass, zero for none. -/
def superIndex : Option String → Interning UInt16
  | none => pure 0
  | some name => Pool.addType name

theorem buildParts_eq (d : Draft) : d.buildParts = (do
    let thisClass ← Pool.addType d.name
    let superClass ← superIndex d.superName
    let interfaces ← d.interfaces.mapM Pool.addType
    let fields ← d.fields.toList.mapM buildMember
    let methods ← d.methods.toList.mapM buildMember
    return (thisClass, superClass, interfaces, fields, methods)) := by
  unfold buildParts
  cases d.superName <;> rfl

theorem gives_superIndex (superName : Option String) :
    (superIndex superName).Gives fun r index =>
      ∀ c : ClassFile, c.pool = r → r.IsShaped → c.superClass = index →
        c.superName = .ok superName := by
  cases superName with
  | none =>
    refine (gives_pure 0).mono ?_
    rintro r _ rfl c rfl _ hindex
    rw [ClassFile.superName, if_pos hindex]
  | some name =>
    refine (gives_addType name).mono ?_
    rintro r index hname c rfl hshaped rfl
    rw [ClassFile.superName, if_neg (hshaped.ne_zero_of_typeName hname), hname]
    rfl

/-- The members of the draft have code where they have a body. -/
def HasCode (d : Draft) : Prop :=
  (∀ m ∈ d.fields.toList, m.HasCode) ∧ ∀ m ∈ d.methods.toList, m.HasCode

/-- The class says what the draft says. -/
structure Becomes (d : Draft) (c : ClassFile) : Prop where
  major : c.major = d.major
  access : c.access = d.access
  name : c.name = .ok d.name
  superName : c.superName = .ok d.superName
  interfaces : c.interfaceNames = .ok d.interfaces
  fields : List.Forall₂ c.Shows d.fields.toList c.fields
  methods : List.Forall₂ c.Shows d.methods.toList c.methods

/-- A class of these parts says what the draft says. -/
theorem gives_buildParts {d : Draft} (hd : d.HasCode) :
    d.buildParts.Gives fun r parts => ∀ c : ClassFile, c.pool = r → r.IsShaped →
      c.major = d.major → c.access = d.access →
        (c.thisClass, c.superClass, c.interfaces, c.fields, c.methods) = parts → d.Becomes c := by
  rw [buildParts_eq]
  refine ((gives_addType d.name).bind fun thisClass => (gives_superIndex d.superName).bind
    fun superClass => (Gives.mapM fun name _ => gives_addType name).bind fun interfaces =>
      (Gives.mapM fun m hm => gives_buildMember (hd.1 m hm)).bind fun fields =>
        (Gives.mapM fun m hm => gives_buildMember (hd.2 m hm)).bind fun methods =>
          gives_pure _).mono ?_
  rintro r _ ⟨_, hname, _, hsuper, _, hinterfaces, _, hfields, _, hmethods, rfl⟩ c rfl hshaped
    hmajor haccess hparts
  -- each part was good when it was made, and is good in the pool that all of them left
  obtain ⟨rfl, rfl, rfl, rfl, rfl⟩ : _ ∧ _ ∧ _ ∧ _ ∧ _ := by simpa only [Prod.mk.injEq] using hparts
  exact ⟨hmajor, haccess, hname, hsuper c rfl hshaped rfl, mapM_eq_ok.mpr hinterfaces.flip,
    hfields.imp fun _ _ h => h c rfl, hmethods.imp fun _ _ h => h c rfl⟩

/-- A draft that can be written is read again as the class that it says. -/
theorem exists_parse_of_build {d : Draft} (hindexed : d.pool.IsIndexed) (hshaped : d.pool.IsShaped)
    (hd : d.HasCode) {data : Bytes} (h : d.build = .ok data) :
    ∃ c, ClassFile.parse data = .ok c ∧ d.Becomes c ∧ d.pool.GrowsTo c.pool := by
  obtain ⟨c, hc, hbytes⟩ := bind_eq_ok.mp h
  unfold toClassFile at hc
  split at hc
  · cases hc
  next thisClass superClass interfaces fields methods q hparts =>
    obtain ⟨hgrown, hgood⟩ := gives_buildParts hd d.pool q _ hindexed hparts
    have hgrowing := hgrown.isShaped hshaped
    have hbecomes : d.Becomes c := by
      cases hc
      exact hgood q (.refl hgrown.indexed) _ rfl hgrowing rfl rfl rfl
    have hpool : c.pool = q := by
      cases hc
      rfl
    subst hpool
    exact ⟨c, ClassFile.parse_eq_ok.mpr ⟨hgrowing, hbytes, _, hbecomes.name⟩, hbecomes, hgrown⟩

/-! ### What is asked of a draft -/

/-- What can be asked of a draft before it is built. -/
inductive Request where
  /-- A constant, whose index is handed out. -/
  | constant (s : Symbol)
  | version (major : UInt16)
  | access (flags : UInt16)
  | interface (name : String)
  | field (flags : UInt16) (name descriptor : String)
  | method (flags : UInt16) (name descriptor : String) (body : Option CodeAttribute)
  deriving DecidableEq, Repr

def ask (d : Draft) : Request → Draft
  | .constant s => (d.intern s.intern).2
  | .version major => { d with major }
  | .access flags => { d with access := flags }
  | .interface name => d.withInterface name
  | .field flags name descriptor => d.withField flags name descriptor
  | .method flags name descriptor body => d.withMethod flags name descriptor body

def askAll : List Request → Draft → Draft
  | [], d => d
  | request :: rest, d => askAll rest (d.ask request)

/-- The index that is handed out, where a constant is asked for and the pool has room. -/
def handed (d : Draft) : Request → Option (Symbol × UInt16)
  | .constant s =>
    match (d.intern s.intern).1 with
    | .ok index => some (s, index)
    | .error _ => none
  | _ => none

/-- All indices that are handed out on the way. -/
def handedOut : List Request → Draft → List (Symbol × UInt16)
  | [], _ => []
  | request :: rest, d => (d.handed request).toList ++ handedOut rest (d.ask request)

namespace Request

def version? : Request → Option UInt16
  | version major => some major
  | _ => none

def access? : Request → Option UInt16
  | access flags => some flags
  | _ => none

def interface? : Request → Option String
  | interface name => some name
  | _ => none

def field? : Request → Option DraftMember
  | field flags name descriptor => some ⟨flags, name, descriptor, none⟩
  | _ => none

def method? : Request → Option DraftMember
  | method flags name descriptor body => some ⟨flags, name, descriptor, body⟩
  | _ => none

end Request

variable {d : Draft} {requests : List Request}

theorem intern_snd {α : Type} (x : Interning α) :
    (d.intern x).2 = { d with pool := x.after d.pool } := by
  unfold intern Interning.after
  cases x d.pool <;> rfl

theorem intern_fst_eq_ok {α : Type} {x : Interning α} {a : α} :
    (d.intern x).1 = .ok a ↔ ∃ q, x d.pool = .ok a q := by
  unfold intern
  cases x d.pool <;> simp

/-- What a draft says after these were asked for. -/
structure Says (d : Draft) (requests : List Request) (d' : Draft) : Prop where
  name : d'.name = d.name
  superName : d'.superName = d.superName
  major : d'.major = (requests.filterMap Request.version?).getLast?.getD d.major
  access : d'.access = (requests.filterMap Request.access?).getLast?.getD d.access
  interfaces : d'.interfaces = d.interfaces ++ requests.filterMap Request.interface?
  fields : d'.fields.toList = d.fields.toList ++ requests.filterMap Request.field?
  methods : d'.methods.toList = d.methods.toList ++ requests.filterMap Request.method?

theorem says_ask (d : Draft) (request : Request) : d.Says [request] (d.ask request) := by
  cases request with
  | constant s =>
    rw [ask, intern_snd]
    constructor <;> simp [Request.version?, Request.access?, Request.interface?, Request.field?,
      Request.method?]
  | _ =>
    constructor <;> simp [ask, withInterface, withField, withMethod, Request.version?,
      Request.access?, Request.interface?, Request.field?, Request.method?]

theorem Says.trans {d' d'' : Draft} {rest : List Request} (h : d.Says requests d')
    (h' : d'.Says rest d'') : d.Says (requests ++ rest) d'' where
  name := h'.name.trans h.name
  superName := h'.superName.trans h.superName
  major := by rw [h'.major, h.major, List.filterMap_append, List.getLast?_append, Option.getD_or]
  access := by rw [h'.access, h.access, List.filterMap_append, List.getLast?_append, Option.getD_or]
  interfaces := by rw [h'.interfaces, h.interfaces, List.filterMap_append, List.append_assoc]
  fields := by rw [h'.fields, h.fields, List.filterMap_append, List.append_assoc]
  methods := by rw [h'.methods, h.methods, List.filterMap_append, List.append_assoc]

theorem says_askAll (requests : List Request) (d : Draft) : d.Says requests (askAll requests d) := by
  induction requests generalizing d with
  | nil => constructor <;> simp [askAll]
  | cons request rest ih => exact (says_ask d request).trans (ih (d.ask request))

/-- Requests add to the pool, and change nothing that is there. -/
theorem grows_ask (hd : d.pool.IsIndexed) (request : Request) :
    d.pool.GrowsTo (d.ask request).pool := by
  cases request with
  | constant s =>
    rw [ask, intern_snd]
    exact s.isAddition_intern.grows d.pool hd
  | _ => exact .refl hd

theorem grows_askAll (hd : d.pool.IsIndexed) (requests : List Request) :
    d.pool.GrowsTo (askAll requests d).pool := by
  induction requests generalizing d with
  | nil => exact .refl hd
  | cons request rest ih =>
    have hfirst := grows_ask hd request
    exact hfirst.trans (ih hfirst.indexed)

theorem denoted_of_handed (hd : d.pool.IsIndexed) {request : Request} {s : Symbol} {index : UInt16}
    (h : d.handed request = some (s, index)) : s.Denoted (d.ask request).pool index := by
  cases request with
  | constant asked =>
    simp only [handed] at h
    split at h
    next found hfound =>
      cases h
      obtain ⟨q, hq⟩ := intern_fst_eq_ok.mp hfound
      have hdenoted := Symbol.denoted_of_intern hd hq
      rw [ask, intern_snd]
      show s.Denoted (s.intern.after d.pool) index
      rwa [Interning.after, hq]
    · cases h
  | _ => cases h

/-- An index that was handed out stands for the same ever after. -/
theorem denoted_of_handedOut (hd : d.pool.IsIndexed) {s : Symbol} {index : UInt16}
    (h : (s, index) ∈ handedOut requests d) : s.Denoted (askAll requests d).pool index := by
  induction requests generalizing d with
  | nil => cases h
  | cons request rest ih =>
    have hgrown := grows_ask hd request
    rcases List.mem_append.mp h with h | h
    · have hfirst := denoted_of_handed hd (Option.mem_toList.mp h)
      exact hfirst.grow (grows_askAll hgrown.indexed rest)
    · exact ih hgrown.indexed h

/-- Whatever was asked for, and in whatever order: the class that is built is read again, has its
names, its interfaces and its members as they were asked for, with code just where there is a body,
and every index that was handed out stands in it for its constant. -/
theorem parse_of_build (name superName : String) (requests : List Request)
    (hbodies : ∀ m ∈ requests.filterMap Request.method?, m.HasCode) {data : Bytes}
    (h : (askAll requests (new name superName)).build = .ok data) :
    ∃ c, ClassFile.parse data = .ok c ∧
      c.major = (requests.filterMap Request.version?).getLast?.getD 52 ∧
      c.access = (requests.filterMap Request.access?).getLast?.getD 0x0021 ∧
      c.name = .ok name ∧
      c.superName = .ok (if superName = "" then none else some superName) ∧
      c.interfaceNames = .ok (requests.filterMap Request.interface?) ∧
      List.Forall₂ c.Shows (requests.filterMap Request.field?) c.fields ∧
      List.Forall₂ c.Shows (requests.filterMap Request.method?) c.methods ∧
      ∀ s index, (s, index) ∈ handedOut requests (new name superName) →
        s.Denoted c.pool index := by
  have hempty : Pool.IsOriginal (new name superName).pool := .empty
  have hbuilt := says_askAll requests (new name superName)
  have hgrown := grows_askAll hempty.isIndexed requests
  have hcode : (askAll requests (new name superName)).HasCode := by
    refine ⟨fun m hm => ?_, fun m hm => ?_⟩
    · rw [hbuilt.fields] at hm
      obtain ⟨request, _, hfield⟩ := List.mem_filterMap.mp hm
      cases request with
      | field =>
        cases hfield
        exact fun _ hbody => nomatch hbody
      | _ => cases hfield
    · rw [hbuilt.methods] at hm
      exact hbodies m hm
  obtain ⟨c, hc, hbecomes, hpool⟩ := exists_parse_of_build hgrown.indexed
    (hgrown.isShaped hempty.isShaped) hcode h
  refine ⟨c, hc, hbecomes.major.trans hbuilt.major, hbecomes.access.trans hbuilt.access, ?_, ?_, ?_,
    ?_, ?_, ?_⟩
  · rw [hbecomes.name, hbuilt.name]
    rfl
  · rw [hbecomes.superName, hbuilt.superName]
    simp [new]
  · rw [hbecomes.interfaces, hbuilt.interfaces]
    rfl
  · have hfields := hbecomes.fields
    rwa [hbuilt.fields] at hfields
  · have hmethods := hbecomes.methods
    rwa [hbuilt.methods] at hmethods
  · intro s index hindex
    exact (denoted_of_handedOut hempty.isIndexed hindex).grow hpool

/-- A class without a superclass, whose code calls by an index that was handed out before. -/
def starter : List Request := [
  .constant (.member .method "java/lang/Thread" "start" "()V"),
  .method 0x0009 "go" "(Ljava/lang/Thread;)V" (some ⟨1, 1, [0x2A, 0xB6, 0x00, 0x06, 0xB1], [], []⟩),
  .interface "a/Task", .field 0x0002 "Code" "J", .method 0x0401 "call" "()V" none, .version 61,
  .constant (.string "Code")]

theorem parse_of_build_starter : ∃ data c, (askAll starter (new "a/B" "")).build = .ok data ∧
    ClassFile.parse data = .ok c ∧ c.major = 61 ∧ c.name = .ok "a/B" ∧ c.superName = .ok none ∧
      c.interfaceNames = .ok ["a/Task"] ∧
      (Symbol.member .method "java/lang/Thread" "start" "()V").Denoted c.pool 6 := by
  have hbuild : (askAll starter (new "a/B" "")).build.toOption.isSome = true := by decide +kernel
  have hindex : (Symbol.member .method "java/lang/Thread" "start" "()V", (6 : UInt16)) ∈
      handedOut starter (new "a/B" "") := by decide +kernel
  have hbodies : ∀ m ∈ starter.filterMap Request.method?, m.HasCode := by
    intro m hm
    simp only [starter, List.filterMap_cons, Request.method?, List.filterMap_nil, List.mem_cons,
      List.not_mem_nil, or_false] at hm
    rcases hm with rfl | rfl
    · rintro _ ⟨⟩
      simp
    · rintro _ ⟨⟩
  obtain ⟨data, hdata⟩ := Option.isSome_iff_exists.mp hbuild
  have hdata := toOption_eq_some.mp hdata
  obtain ⟨c, hc, hmajor, _, hname, hsuper, hinterfaces, _, _, hhanded⟩ :=
    parse_of_build "a/B" "" starter hbodies hdata
  exact ⟨data, c, hdata, hc, hmajor, hname, hsuper, hinterfaces, hhanded _ _ hindex⟩

end Draft

end ThreadWatch
