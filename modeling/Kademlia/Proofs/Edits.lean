import Kademlia.Proofs.Packets
import Mathlib.Logic.Relation

/-!
# Kademlia.Proofs.Edits

What can be changed in a packet.  A `Layout` tells where the dictionaries of a
packet stand and which fields they have, and an `Edit` is one change to one of
them: entries change places, or an entry is added.

* Edits that add entries under other names than those of fields, and those that
  add nothing, do not change the message that is read.
* An edit that gives a field a second entry leaves a packet that is refused.

Both are shown for one edit (`ofValue?_of_edit`) and then for a packet after any
number of harmless ones (`Message.decode_edited`).  The reader asks a dictionary
for one field at a time, so all that an edit can do to what it sees is said by
`Change`, and the readers are followed field by field.
-/

namespace Kademlia

open Bencode (Value Spells)
open Kademlia.Frame

/-! ## Layouts -/

/-- The dictionaries in a value, with their fields. -/
inductive Layout where
  /-- A value that is not looked into. -/
  | plain
  /-- A list. -/
  | items (part : Layout)
  /-- A dictionary.  The keys of a `textual` one have to be texts. -/
  | record (textual : Bool) (fields : List (String × Layout))

namespace Layout

/-- A dictionary whose fields are not looked into. -/
def flat (names : List String) : Layout := .record false (names.map (·, .plain))

/-- A peer in a list of nodes. -/
def node : Layout := flat ["id", "a"]

/-- The parts of a response. -/
def response : Layout := .record false [("id", .plain), ("v", .plain), ("nodes", .items node)]

/-- The parts of a body. -/
def parts : FrameBody → Layout
  | .getValue _ _ _ => flat ["id", "key", "k"]
  | .storeValue _ _ _ => flat ["id", "key", "v"]
  | .response _ _ _ => response
  | .failure _ _ => .plain

/-- A packet with a body. -/
def packet (body : FrameBody) : Layout :=
  .record true
    (("t", .plain) :: body.tags.map (fun tag => (tag.1, .plain)) ++ [(body.place, parts body)])

end Layout

/-! ## Edits -/

/-- One change to a value with some layout.  It is marked if it adds an entry
for a field that has one already. -/
inductive Edit : Layout → Bool → Value → Value → Prop where
  /-- Entries change places. -/
  | reorder {textual : Bool} {fields : List (String × Layout)} {es es' : List (Bytes × Value)}
      (h : es.Perm es') : Edit (.record textual fields) false (dictionary es) (dictionary es')
  /-- An entry with any value is added under a key that no field has. -/
  | insert {textual : Bool} {fields : List (String × Layout)} {before after : List (Bytes × Value)}
      (key : Bytes) (u : Value) (hkey : ∀ field ∈ fields, key ≠ Bytes.ofText field.1)
      (htext : textual = true → key.text?.isSome) :
      Edit (.record textual fields) false (dictionary (before ++ after))
        (dictionary (before ++ (key, u) :: after))
  /-- An entry with any value is added for a field that has one. -/
  | again {textual : Bool} {fields : List (String × Layout)} {before after : List (Bytes × Value)}
      {name : String} {part : Layout} {v : Value} (u : Value) (hname : (name, part) ∈ fields)
      (h : (Bytes.ofText name, v) ∈ before ++ after) :
      Edit (.record textual fields) true (dictionary (before ++ after))
        (dictionary (before ++ (Bytes.ofText name, u) :: after))
  /-- The value of a field is changed. -/
  | field {textual marked : Bool} {fields : List (String × Layout)}
      {before after : List (Bytes × Value)} {name : String} {part : Layout} {v w : Value}
      (hname : (name, part) ∈ fields) (h : Edit part marked v w) :
      Edit (.record textual fields) marked (dictionary (before ++ (Bytes.ofText name, v) :: after))
        (dictionary (before ++ (Bytes.ofText name, w) :: after))
  /-- A member of a list is changed. -/
  | item {marked : Bool} {part : Layout} {before after : List Value} {v w : Value}
      (h : Edit part marked v w) :
      Edit (.items part) marked (.list (before ++ v :: after)) (.list (before ++ w :: after))

variable {fields : List (String × Layout)} {es es' before after : List (Bytes × Value)}
  {key : Bytes} {name : String} {part : Layout} {u v w : Value} {textual marked : Bool}

theorem Edit.not_plain : ¬ Edit .plain marked v w := by
  intro h
  cases h

/-! ## Single entries -/

namespace Frame

/-- What stands under a name does not depend on the order of the entries. -/
theorem single?_perm (h : es.Perm es') (name : String) : single? es' name = single? es name := by
  have hfound := h.filter (·.1 == Bytes.ofText name)
  rw [single?, single?]
  generalize es.filter _ = found at hfound ⊢
  generalize es'.filter _ = found' at hfound ⊢
  rcases found with _ | ⟨a, _ | ⟨b, found⟩⟩
  · rw [hfound.nil_eq]
  · rw [List.singleton_perm.mp hfound]
  · rcases found' with _ | ⟨a', _ | ⟨b', found'⟩⟩
    · simp at hfound
    · simp at hfound
    · rfl

theorem single?_insert_of_ne (h : key ≠ Bytes.ofText name) :
    single? (before ++ (key, u) :: after) name = single? (before ++ after) name := by
  rw [single?_perm List.perm_middle.symm, single?, single?,
    List.filter_cons_of_neg (by simpa using h)]

/-- The first entry under a name is found, and a second one hides it. -/
theorem single?_insert_self :
    single? (before ++ (Bytes.ofText name, u) :: after) name = some (some u) ∧
        single? (before ++ after) name = some none ∨
      single? (before ++ (Bytes.ofText name, u) :: after) name = none ∧
        single? (before ++ after) name ≠ some none := by
  rw [single?_perm List.perm_middle.symm, single?, single?, List.filter_cons_of_pos (by simp)]
  generalize (before ++ after).filter _ = found
  rcases found with _ | ⟨a, _ | ⟨b, found⟩⟩ <;> simp

theorem single?_ne_of_mem (h : (Bytes.ofText name, u) ∈ es) : single? es name ≠ some none := by
  have hmem : (Bytes.ofText name, u) ∈ es.filter (·.1 == Bytes.ofText name) := by simp [h]
  rw [single?]
  split
  · next hnil => simp [hnil] at hmem
  · simp
  · simp

theorem required?_congr (h : single? es' name = single? es name) :
    required? es' name = required? es name := by
  rw [required?, required?, h]

theorem textAt_congr (h : single? es' name = single? es name) :
    textAt es' name = textAt es name := by
  rw [textAt, textAt, required?_congr h]

theorem textAt_eq_none (h : single? es name = none) : textAt es name = none := by
  rw [textAt, required?, h]
  rfl

theorem required?_bind {α : Type} (read : Value → Option α) :
    (required? es name).bind read = (single? es name).bind fun slot => slot.bind read := by
  rw [required?]
  rcases single? es name with _ | _ | v <;> rfl

end Frame

/-! ## What an edit does to the fields of a dictionary -/

/-- What becomes of the fields: they stay as they are, or one of them is lost,
or the value of one of them is changed. -/
inductive Change (fields : List (String × Layout)) (es es' : List (Bytes × Value)) :
    Bool → Prop where
  | same (h : ∀ field ∈ fields, single? es' field.1 = single? es field.1) :
      Change fields es es' false
  | lost {name : String} {part : Layout} (hname : (name, part) ∈ fields)
      (hlost : single? es' name = none)
      (hothers : ∀ field ∈ fields, field.1 ≠ name → single? es' field.1 = single? es field.1) :
      Change fields es es' true
  | part {marked : Bool} {name : String} {part : Layout} {v w : Value}
      (hname : (name, part) ∈ fields) (h : Edit part marked v w)
      (hpart : single? es name ≠ none →
        single? es name = some (some v) ∧ single? es' name = some (some w))
      (hothers : ∀ field ∈ fields, field.1 ≠ name → single? es' field.1 = single? es field.1) :
      Change fields es es' marked

/-- An edit of a dictionary leads to another one with keys as good as before. -/
theorem Edit.of_record (h : Edit (.record textual fields) marked v w) :
    ∃ es es', v = dictionary es ∧ w = dictionary es' ∧ Change fields es es' marked ∧
      (textual = true → (es.all fun entry => entry.1.text?.isSome) = true →
        (es'.all fun entry => entry.1.text?.isSome) = true) := by
  have hkey {s t : String} (hne : t ≠ s) : Bytes.ofText s ≠ Bytes.ofText t :=
    fun heq => hne (Bytes.ofText_inj.mp heq).symm
  cases h with
  | @reorder _ _ es es' h =>
    exact ⟨es, es', rfl, rfl, .same fun field _ => single?_perm h field.1,
      fun _ hall => by rwa [← h.all_eq]⟩
  | insert key u hother htext =>
    refine ⟨_, _, rfl, rfl, .same fun field hfield => single?_insert_of_ne (hother field hfield),
      fun ht hall => ?_⟩
    simp only [List.all_append, List.all_cons, Bool.and_eq_true] at hall ⊢
    exact ⟨hall.1, htext ht, hall.2⟩
  | again u hname hmem =>
    refine ⟨_, _, rfl, rfl,
      .lost hname ?_ fun field _ hne => single?_insert_of_ne (hkey hne), fun _ hall => ?_⟩
    · obtain ⟨-, hmissing⟩ | ⟨hlost, -⟩ := single?_insert_self
      · exact absurd hmissing (single?_ne_of_mem hmem)
      · exact hlost
    · simp only [List.all_append, List.all_cons, Bool.and_eq_true, Bytes.text?_ofText,
        Option.isSome_some] at hall ⊢
      exact ⟨hall.1, trivial, hall.2⟩
  | field hname h =>
    refine ⟨_, _, rfl, rfl, .part hname h (fun hv => ?_) fun field _ hne => ?_, fun _ hall => ?_⟩
    · obtain ⟨hfound, hmissing⟩ | ⟨hlost, -⟩ := single?_insert_self
      · obtain ⟨hfound', -⟩ | ⟨-, hpresent⟩ := single?_insert_self
        · exact ⟨hfound, hfound'⟩
        · contradiction
      · contradiction
    · rw [single?_insert_of_ne (hkey hne), single?_insert_of_ne (hkey hne)]
    · simpa only [List.all_append, List.all_cons] using hall

namespace Change

/-- A plain field stays as it is, and the change is among the others, or it is lost. -/
theorem cons_plain (h : Change ((name, .plain) :: fields) es es' marked)
    (hne : name ∉ fields.map (·.1)) :
    single? es' name = single? es name ∧ Change fields es es' marked ∨
      single? es' name = none ∧ marked = true := by
  have hother {other : String} {part : Layout} (hmem : (other, part) ∈ fields) : name ≠ other := by
    rintro rfl
    exact hne (List.mem_map_of_mem hmem)
  cases h with
  | same h =>
    exact .inl ⟨h _ List.mem_cons_self, .same fun field hfield => h field (.tail _ hfield)⟩
  | lost hname hlost hothers =>
    rcases List.mem_cons.mp hname with heq | hname
    · cases heq
      exact .inr ⟨hlost, rfl⟩
    · exact .inl ⟨hothers _ List.mem_cons_self (hother hname),
        .lost hname hlost fun field hfield => hothers field (.tail _ hfield)⟩
  | part hname h hpart hothers =>
    rcases List.mem_cons.mp hname with heq | hname
    · cases heq
      exact absurd h Edit.not_plain
    · exact .inl ⟨hothers _ List.mem_cons_self (hother hname),
        .part hname h hpart fun field hfield => hothers field (.tail _ hfield)⟩

/-- What is read from the one field that is left. -/
theorem bind_single? {α : Type} {read : Option Value → Option α} {x : α}
    (h : Change [(name, part)] es es' marked)
    (hread : ∀ v w, Edit part marked v w → read (some v) = some x →
      read (some w) = if marked then none else some x)
    (hx : (single? es name).bind read = some x) :
    (single? es' name).bind read = if marked then none else some x := by
  cases h with
  | same hsame =>
    rw [hsame _ List.mem_cons_self]
    exact hx
  | lost hname hlost _ =>
    cases List.mem_singleton.mp hname
    rw [hlost]
    rfl
  | part hname h hpart _ =>
    cases List.mem_singleton.mp hname
    obtain ⟨slot, hslot, hx⟩ := Option.bind_eq_some_iff.mp hx
    obtain ⟨hv, hw⟩ := hpart (by simp [hslot])
    cases hv.symm.trans hslot
    rw [hw]
    exact hread _ _ h hx

theorem mapM_single? {names : List String} {slots : List (Option Value)}
    (h : Change (names.map (·, .plain)) es es' marked) (hnames : names.Nodup)
    (hslots : names.mapM (single? es) = some slots) :
    names.mapM (single? es') = if marked then none else some slots := by
  induction names generalizing slots with
  | nil =>
    cases h with
    | same => exact hslots
    | lost hname => contradiction
    | part hname => contradiction
  | cons name names ih =>
    obtain ⟨hname, hnames⟩ := List.nodup_cons.mp hnames
    rw [List.mapM_cons] at hslots ⊢
    obtain ⟨slot, hslot, hslots⟩ := Option.bind_eq_some_iff.mp hslots
    obtain ⟨rest, hrest, hslots⟩ := Option.bind_eq_some_iff.mp hslots
    obtain ⟨hsame, h⟩ | ⟨hlost, rfl⟩ := h.cons_plain (by simpa [Function.comp_def] using hname)
    · rw [hsame, hslot, ih h hnames hrest, ← hslots]
      cases marked <;> rfl
    · rw [hlost]
      rfl

end Change

/-! ## Reading the parts of a packet -/

theorem slots?_of_edit {names : List String} {slots : List (Option Value)}
    (h : Edit (.flat names) marked v w) (hnames : names.Nodup)
    (hslots : slots? names v = some slots) :
    slots? names w = if marked then none else some slots := by
  obtain ⟨es, es', rfl, rfl, hchange, -⟩ := h.of_record
  rw [slots?_dictionary] at hslots ⊢
  exact hchange.mapM_single? hnames hslots

theorem node?_of_edit {node : Bytes × String} (h : Edit .node marked v w)
    (hread : node? v = some node) : node? w = if marked then none else some node := by
  unfold node? at hread ⊢
  split at hread
  · next hslots =>
    rw [slots?_of_edit h (by simp) hslots]
    cases marked with
    | false => exact hread
    | true => rfl
  · contradiction

theorem mapM_eq_none {α β : Type} {f : α → Option β} {xs : List α} {x : α} (hx : x ∈ xs)
    (h : f x = none) : xs.mapM f = none := by
  induction xs with
  | nil => contradiction
  | cons y ys ih =>
    rw [List.mapM_cons]
    rcases List.mem_cons.mp hx with rfl | hx
    · rw [h]
      rfl
    · rw [ih hx]
      cases f y <;> rfl

theorem nodes?_of_edit {nodes : List (Bytes × String)} (h : Edit (.items .node) marked v w)
    (hread : nodes? v = some nodes) : nodes? w = if marked then none else some nodes := by
  cases h with
  | @item _ _ before after x y h =>
    rw [nodes?] at hread ⊢
    cases hx : node? x with
    | none =>
      rw [mapM_eq_none (by simp) hx] at hread
      contradiction
    | some node =>
      have hy := node?_of_edit h hx
      cases marked with
      | false =>
        rw [← hread]
        simp [List.mapM_append, hx, hy]
      | true => exact mapM_eq_none (by simp) hy

/-- A response is read one field after the other. -/
theorem response?_dictionary (es : List (Bytes × Value)) :
    response? (dictionary es) =
      ((single? es "id").bind fun id => id.bind bytes?).bind fun id =>
        ((single? es "v").bind (optional? bytes?)).bind fun value =>
          ((single? es "nodes").bind (optional? nodes?)).map (FrameBody.response id value) := by
  rw [response?, slots?_dictionary]
  simp only [List.mapM_cons, List.mapM_nil]
  rcases single? es "id" with _ | _ | id <;> rcases single? es "v" with _ | value <;>
    rcases single? es "nodes" with _ | nodes <;> simp [Option.map_eq_bind]

theorem response?_of_edit {body : FrameBody} (h : Edit .response marked v w)
    (hread : response? v = some body) : response? w = if marked then none else some body := by
  obtain ⟨es, es', rfl, rfl, hchange, -⟩ := h.of_record
  rw [response?_dictionary] at hread ⊢
  obtain ⟨id, hid, hread⟩ := Option.bind_eq_some_iff.mp hread
  obtain ⟨value, hvalue, hread⟩ := Option.bind_eq_some_iff.mp hread
  obtain ⟨nodes, hnodes, rfl⟩ := Option.map_eq_some_iff.mp hread
  obtain ⟨hsame, hchange⟩ | ⟨hlost, rfl⟩ := hchange.cons_plain (by simp)
  · rw [hsame, hid]
    obtain ⟨hsame, hchange⟩ | ⟨hlost, rfl⟩ := hchange.cons_plain (by simp)
    · have hnodes' := hchange.bind_single? (fun v w hedit hv => ?_) hnodes
      · rw [hsame, hnodes']
        cases marked <;> simp [hvalue]
      · simp only [optional?, Option.map_eq_some_iff] at hv
        obtain ⟨ns, hns, rfl⟩ := hv
        simp only [optional?, nodes?_of_edit hedit hns]
        cases marked <;> rfl
    · simp [hlost]
  · simp [hlost]

theorem read?_of_edit {body : FrameBody} (h : Edit (.parts body) marked v w)
    (hread : body.read? v = some body) :
    body.read? w = if marked then none else some body := by
  cases body
  case getValue | storeValue =>
    simp [FrameBody.read?, arguments?] at hread ⊢
    split at hread
    · next hslots =>
      rw [slots?_of_edit h (by simp) hslots]
      cases marked with
      | false => exact hread
      | true => rfl
    · contradiction
  case response => exact response?_of_edit h hread
  case failure => exact absurd h Edit.not_plain

/-! ## Reading a packet -/

/-- Once the tags were read, all depends on the parts. -/
theorem body?_of_parts {body : FrameBody} (h : Change [(body.place, .parts body)] es es' marked)
    (htags : ∀ tag ∈ body.tags, textAt es' tag.1 = some tag.2)
    (hread : (required? es body.place).bind body.read? = some body) :
    body? es' = if marked then none else some body := by
  rw [required?_bind] at hread
  rw [body?_of_tags htags, required?_bind]
  exact h.bind_single? (fun v w hedit hv => read?_of_edit hedit hv) hread

theorem body?_of_change {body : FrameBody}
    (h : Change (body.tags.map (fun tag => (tag.1, .plain)) ++ [(body.place, .parts body)])
      es es' marked)
    (hread : body? es = some body) : body? es' = if marked then none else some body := by
  obtain ⟨htags, hparts⟩ := of_body? hread
  cases body
  case getValue | storeValue =>
    obtain ⟨hkind, h⟩ | ⟨hlost, rfl⟩ := h.cons_plain (by simp [FrameBody.place])
    · obtain ⟨hmethod, h⟩ | ⟨hlost, rfl⟩ := h.cons_plain (by simp [FrameBody.place])
      · refine body?_of_parts h (fun tag htag => (textAt_congr ?_).trans (htags tag htag)) hparts
        rcases List.mem_pair.mp htag with rfl | rfl
        · exact hkind
        · exact hmethod
      · have hquery := (textAt_congr hkind).trans (htags ("y", "q") (by simp [FrameBody.tags]))
        simp [body?_eq_bind, hquery, textAt_eq_none hlost]
    · simp [body?_eq_bind, textAt_eq_none hlost]
  case response | failure =>
    obtain ⟨hkind, h⟩ | ⟨hlost, rfl⟩ := h.cons_plain (by simp [FrameBody.place])
    · refine body?_of_parts h (fun tag htag => (textAt_congr ?_).trans (htags tag htag)) hparts
      rcases List.mem_singleton.mp htag with rfl
      exact hkind
    · simp [body?_eq_bind, textAt_eq_none hlost]

/-- **One edit.**  A harmless one does not change the frame that is read, and
after a marked one no frame is read. -/
theorem ofValue?_of_edit {f : Frame} (h : Edit (.packet f.body) marked v w)
    (hread : ofValue? v = some f) : ofValue? w = if marked then none else some f := by
  obtain ⟨es, es', rfl, rfl, hchange, htext⟩ := h.of_record
  rw [ofValue?_dictionary] at hread ⊢
  split at hread
  · next hall =>
    rw [if_pos (htext rfl hall)]
    obtain ⟨id, hid, hread⟩ := Option.bind_eq_some_iff.mp hread
    obtain ⟨body, hbody, rfl⟩ := Option.map_eq_some_iff.mp hread
    obtain ⟨hsame, hchange⟩ | ⟨hlost, rfl⟩ :=
      hchange.cons_plain (by cases body <;> simp [FrameBody.tags, FrameBody.place])
    · rw [required?_congr hsame, hid, body?_of_change hchange hbody]
      cases marked <;> rfl
    · simp [required?, hlost]
  · contradiction

/-- Any number of harmless edits. -/
theorem ofValue?_of_edits {f : Frame}
    (h : Relation.ReflTransGen (Edit (.packet f.body) false) v w) (hread : ofValue? v = some f) :
    ofValue? w = some f := by
  induction h with
  | refl => exact hread
  | tail _ hedit ih => exact ofValue?_of_edit hedit ih

namespace Message

/-- The layout of the packet of a message. -/
def layout (m : Message) : Layout := .packet (Frame.ofMessage m).body

/-- **Decoding ignores the order of keys and unknown fields, and rejects
repeats.**  The packet of a message spells a dictionary.  However that one is
spelled after any number of harmless edits, the message is read; and however it
is spelled after one of its fields got a second entry as well, it is refused.
What is inserted has to be spelled, too, so its integers fit 64 bits
(`Spells.int`). -/
theorem decode_edited (m : Message) (hm : m.Countable) :
    Spells (Frame.ofMessage m).toValue m.encode ∧
      ∀ w, Relation.ReflTransGen (Edit m.layout false) (Frame.ofMessage m).toValue w →
        (∀ packet, Spells w packet → decode packet = .ok m) ∧
        ∀ w' packet, Edit m.layout true w w' → Spells w' packet →
          decode packet = .error .malformed := by
  refine ⟨m.spells_encode, fun w hw => ?_⟩
  have hread := ofValue?_of_edits hw (ofValue?_toValue _)
  constructor
  · intro packet hspells
    have hdecode := decode_append_of_some hspells hread []
    rwa [List.append_nil, toMessage_ofMessage m hm] at hdecode
  · intro w' packet hedit hspells
    have hdecode := decode_append_of_none hspells (ofValue?_of_edit hedit hread) []
    rwa [List.append_nil] at hdecode

namespace Small

/-- The node that the answer names. -/
def node : Bytes × String := ([2], toString address)

/-- The fields of the answer behind some more. -/
def response (more : List (String × Value)) : Value :=
  record (more ++ [("id", .bytes [1]), ("nodes", .list [nodeValue node]), ("v", .bytes [255, 0])])

/-- The dictionary of the answer in another order, with an entry that no reader knows. -/
def edited (more : List (String × Value)) : Value :=
  record [("x", .list [.int 1, .dict []]), ("y", textValue "r"), ("t", .bytes [1, 2]),
    ("r", response more)]

theorem spells_edited {more : List (String × Value)}
    (h : ∀ field ∈ more, Spells field.2 field.2.encode) :
    Spells (edited more) (edited more).encode := by
  have hnodes : Spells (.list [nodeValue node]) _ := spells_nodes [node]
  have hresponse : Spells (response more) (response more).encode := by
    refine spells_record fun field hfield => ?_
    rcases List.mem_append.mp hfield with hmore | hown
    · exact h field hmore
    · simp at hown
      rcases hown with rfl | rfl | rfl
      · exact Bencode.spells_bytes _
      · exact hnodes
      · exact Bencode.spells_bytes _
  have hint : Spells (.int 1) (Value.int 1).encode := Bencode.spells_int (by decide) (by decide)
  have hdict : Spells (.dict []) (Value.dict []).encode := Bencode.spells_dict (by simp)
  have hunknown : Spells (.list [.int 1, .dict []]) _ := Bencode.spells_list (by simp [hint, hdict])
  refine spells_record ?_
  simp [hunknown, hresponse, spells_textValue, Bencode.spells_bytes]

end Small

theorem decode_edited_small :
    decode (Small.edited []).encode = .ok Small.reply ∧
      decode (Small.edited [("v", .bytes [7])]).encode = .error .malformed := by
  let own : List (Bytes × Value) :=
    named [("y", textValue "r"), ("t", .bytes [1, 2]), ("r", Small.response [])]
  have hreorder : Edit Small.reply.layout false (Frame.ofMessage Small.reply).toValue
      (dictionary own) := .reorder (List.reverse_perm own)
  have hinsert : Edit Small.reply.layout false (dictionary own) (Small.edited []) :=
    @Edit.insert _ _ [] own (Bytes.ofText "x") (.list [.int 1, .dict []])
      (by simp [FrameBody.tags, FrameBody.place, Frame.ofMessage, Small.reply]) (by simp)
  have hpart : Edit .response true (Small.response []) (Small.response [("v", .bytes [7])]) :=
    @Edit.again _ _ [] (named [("id", .bytes [1]), ("nodes", .list [nodeValue Small.node]),
      ("v", .bytes [255, 0])]) "v" .plain (.bytes [255, 0]) (.bytes [7]) (.tail _ (.head _))
      (.tail _ (.tail _ (.head _)))
  have hagain : Edit Small.reply.layout true (Small.edited [])
      (Small.edited [("v", .bytes [7])]) :=
    @Edit.field _ _ _ (named [("x", .list [.int 1, .dict []]), ("y", textValue "r"),
      ("t", .bytes [1, 2])]) [] "r" .response _ _ (.tail _ (.tail _ (.head _))) hpart
  have hread := (decode_edited Small.reply Small.countable_reply).2 _
    ((Relation.ReflTransGen.single hreorder).tail hinsert)
  exact ⟨hread.1 _ (Small.spells_edited (by simp)),
    hread.2 _ _ hagain (Small.spells_edited (by simp [Bencode.spells_bytes]))⟩

end Message
end Kademlia
