import MessageCall.Document.Account
import MessageCall.Document.Chain
import MessageCall.Document.Fault
import MessageCall.Proofs.Json.Reorder

/-!
# Documents of the ledger's types are read back

The writer of a type and its reader are declared apart, and each names the fields and cases by
itself. `LawfulDocument` says that the two agree: the reader takes the document of every value, with
the members of objects in any order, for that value. There is an instance for every type that has
documents, from the types it is made of. A record needs the reader of every field to be the one of
what the field was written from, and a type with cases needs the name of every case to lead back to
it.

`Document.round_trips` puts this together with the reader of texts. What is written for a value is
the text of a document without half surrogates and bare controls (`Json.Plain`), and such a text
reads back as that document, whatever characters its strings hold.
-/

namespace MessageCall

open Json

/-- A type whose values are read back from their documents. -/
class LawfulDocument (α : Type) [Document α] : Prop where
  reads : Reads Document.ofJson? (Document.toJson : α → Json)

/-! ### Accounts -/

theorem reads_storage : Reads storage? ofStorage := reads_word.map HexField.hash?_hash

instance : LawfulDocument AccountInfo where
  reads := by
    refine .of_record ["code_hash", "balance", "nonce"] (fun _ => rfl) (by decide) (fun a => ?_)
      fun a doc hdoc j hfields => ?_
    · simp only [List.forall_mem_cons]
      exact ⟨reads_hash.plain _, reads_word.plain _, reads_count.plain _, nofun⟩
    · simp only [List.forall_mem_cons] at hdoc
      obtain ⟨hcodeHash, hbalance, hnonce, -⟩ := hdoc
      -- The fields are found by their names, and each is read as what it was written from.
      show (fields? _ j).bind _ = _
      simp only [hfields, List.map_cons, List.map_nil, Option.bind_some, Slot.required,
        reads_hash.read _ hcodeHash, reads_word.read _ hbalance, reads_count.read _ hnonce]
      rfl

instance : LawfulDocument StoredAccount where
  reads := by
    refine .of_record ["nonce", "balance", "storage_root", "code_hash"] (fun _ => rfl) (by decide)
      (fun a => ?_) fun a doc hdoc j hfields => ?_
    · simp only [List.forall_mem_cons]
      exact ⟨reads_count.plain _, reads_word.plain _, reads_hash.plain _, reads_hash.plain _, nofun⟩
    · simp only [List.forall_mem_cons] at hdoc
      obtain ⟨hnonce, hbalance, hroot, hcodeHash, -⟩ := hdoc
      show (fields? _ j).bind _ = _
      simp only [hfields, List.map_cons, List.map_nil, Option.bind_some, Slot.required,
        reads_count.read _ hnonce, reads_word.read _ hbalance, reads_hash.read _ hroot,
        reads_hash.read _ hcodeHash]
      rfl

instance : LawfulDocument AccountStatus where
  reads := {
    plain := fun s => .text _
    read := fun s j hj => by
      -- A name is looked up among those of all statuses.
      show (variant? j).bind _ = _
      rw [variant?_text hj]
      cases s <;> rfl }

instance : LawfulDocument CachedAccount where
  reads := by
    refine .of_record ["info", "storage", "exists", "status"] (fun _ => rfl) (by decide)
      (fun a => ?_) fun a doc hdoc j hfields => ?_
    · simp only [List.forall_mem_cons]
      exact ⟨LawfulDocument.reads.plain _, reads_storage.plain _, reads_bool.plain _,
        LawfulDocument.reads.plain _, nofun⟩
    · simp only [List.forall_mem_cons] at hdoc
      obtain ⟨hinfo, hstorage, hpresent, hstatus, -⟩ := hdoc
      show (fields? _ j).bind _ = _
      simp only [hfields, List.map_cons, List.map_nil, Option.bind_some, Slot.required,
        LawfulDocument.reads.read _ hinfo, reads_storage.read _ hstorage,
        reads_bool.read _ hpresent, LawfulDocument.reads.read _ hstatus]
      rfl

instance : LawfulDocument AccountUpdate where
  reads := by
    -- Two of the fields may be missing, and are `null` then.
    have hinfos : Reads (nullable? Document.ofJson?)
        (ofOption (Document.toJson : AccountInfo → _)) :=
      LawfulDocument.reads.nullable fun _ => nofun
    have hcodes : Reads (nullable? byteArray?) (ofOption ofByteArray) :=
      reads_byteArray.nullable fun _ => nofun
    refine .of_record ["address", "info", "code", "removed_storage", "added_storage"]
      (fun _ => rfl) (by decide) (fun a => ?_) fun a doc hdoc j hfields => ?_
    · simp only [List.forall_mem_cons]
      exact ⟨reads_address.plain _, hinfos.plain _, hcodes.plain _, reads_bool.plain _,
        reads_storage.plain _, nofun⟩
    · -- Field by field, what is written is read back.
      simp only [List.forall_mem_cons] at hdoc
      obtain ⟨haddress, hinfo, hcode, hremoved, hadded, -⟩ := hdoc
      show (fields? _ j).bind _ = _
      simp only [hfields, List.map_cons, List.map_nil, Option.bind_some, Slot.required,
        Slot.optional, reads_address.read _ haddress, hinfos.read _ hinfo, hcodes.read _ hcode,
        reads_bool.read _ hremoved, reads_storage.read _ hadded]
      rfl

/-! ### Chains -/

instance : LawfulDocument Fork where
  reads := {
    plain := fun f => .text _
    read := fun f j hj => by
      show (variant? j).bind _ = _
      rw [variant?_text hj]
      cases f <;> rfl }

instance : LawfulDocument ChainConfig where
  reads := by
    -- The blocks may be missing, each on its own.
    have hblocks : Reads (nullable? count?) (ofOption ofCount) :=
      reads_count.nullable fun _ => nofun
    refine .of_record ["chainId", "homesteadBlock", "eip150Block", "eip155Block", "eip158Block",
      "byzantiumBlock"] (fun _ => rfl) (by decide) (fun a => ?_) fun a doc hdoc j hfields => ?_
    · simp only [List.forall_mem_cons]
      exact ⟨reads_count.plain _, hblocks.plain _, hblocks.plain _, hblocks.plain _,
        hblocks.plain _, hblocks.plain _, nofun⟩
    · simp only [List.forall_mem_cons] at hdoc
      obtain ⟨hchainId, hhomestead, heip150, heip155, heip158, hbyzantium, -⟩ := hdoc
      show (fields? _ j).bind _ = _
      simp only [hfields, List.map_cons, List.map_nil, Option.bind_some, Slot.defaulted,
        reads_count.read _ hchainId, hblocks.read _ hhomestead, hblocks.read _ heip150,
        hblocks.read _ heip155, hblocks.read _ heip158, hblocks.read _ hbyzantium]
      rfl

instance : LawfulDocument BlockHeader where
  reads := by
    refine .of_record ["parentHash", "coinbase", "difficulty", "number", "gasLimit", "timestamp"]
      (fun _ => rfl) (by decide) (fun a => ?_) fun a doc hdoc j hfields => ?_
    · simp only [List.forall_mem_cons]
      exact ⟨reads_hash.plain _, reads_address.plain _, reads_word.plain _, reads_hexCount.plain _,
        reads_hexCount.plain _, reads_hexCount.plain _, nofun⟩
    · simp only [List.forall_mem_cons] at hdoc
      obtain ⟨hparentHash, hcoinbase, hdifficulty, hnumber, hgasLimit, htimestamp, -⟩ := hdoc
      show (fields? _ j).bind _ = _
      simp only [hfields, List.map_cons, List.map_nil, Option.bind_some, Slot.required,
        reads_hash.read _ hparentHash, reads_address.read _ hcoinbase,
        reads_word.read _ hdifficulty, reads_hexCount.read _ hnumber,
        reads_hexCount.read _ hgasLimit, reads_hexCount.read _ htimestamp]
      rfl

instance : LawfulDocument Limits where
  reads := by
    refine .of_record ["maxCallDepth", "maxCodeSize", "createDataGas", "noRecursion"]
      (fun _ => rfl) (by decide) (fun a => ?_) fun a doc hdoc j hfields => ?_
    · simp only [List.forall_mem_cons]
      exact ⟨reads_count.plain _, reads_count.plain _, reads_count.plain _, reads_bool.plain _,
        nofun⟩
    · simp only [List.forall_mem_cons] at hdoc
      obtain ⟨hdepth, hsize, hgas, hrecursion, -⟩ := hdoc
      show (fields? _ j).bind _ = _
      simp only [hfields, List.map_cons, List.map_nil, Option.bind_some, Slot.defaulted,
        reads_count.read _ hdepth, reads_count.read _ hsize, reads_count.read _ hgas,
        reads_bool.read _ hrecursion]
      rfl

/-! ### Errors -/

instance : LawfulDocument StoreError where
  reads := {
    plain := fun
      | .custom text => ofVariant_plain _ (.text text)
    read := fun e j hj => by
      show (variant? j).bind _ = _
      cases e with
      | custom text => exact reads_text.bind_variant? (fun _ => rfl) hj }

instance : LawfulDocument InternalError where
  reads := {
    -- A case is written as its name, or as an object that has its name.
    plain := fun e => by
      cases e with
      | overflow | underflow | couldNotPopFrame => exact .text _
      | invalidSnapshot position => exact ofVariant_plain _ (reads_count.plain position)
      | accountNotFound address => exact ofVariant_plain _ (reads_address.plain address)
      | codeNotFound codeHash => exact ofVariant_plain _ (reads_hash.plain codeHash)
      | store error => exact ofVariant_plain _ (LawfulDocument.reads.plain error)
      | custom text => exact ofVariant_plain _ (.text text)
    -- The name decides on the case, and what it carries is read by its own reader.
    read := fun e j hj => by
      show (variant? j).bind _ = _
      cases e with
      | overflow | underflow | couldNotPopFrame => exact bind_variant?_text rfl hj
      | invalidSnapshot position => exact reads_count.bind_variant? (fun _ => rfl) hj
      | accountNotFound address => exact reads_address.bind_variant? (fun _ => rfl) hj
      | codeNotFound codeHash => exact reads_hash.bind_variant? (fun _ => rfl) hj
      | store error => exact LawfulDocument.reads.bind_variant? (fun _ => rfl) hj
      | custom text => exact reads_text.bind_variant? (fun _ => rfl) hj }

instance : LawfulDocument ExecutionFault where
  reads := {
    plain := fun f => by
      cases f with
      | outOfGas | stackUnderflow | stackOverflow | revert | cancelled => exact .text _
      | invalidOpcode opcode => exact ofVariant_plain _ (reads_byte.plain opcode)
      | custom text => exact ofVariant_plain _ (.text text)
    read := fun f j hj => by
      show (variant? j).bind _ = _
      cases f with
      | outOfGas | stackUnderflow | stackOverflow | revert | cancelled =>
        exact bind_variant?_text rfl hj
      | invalidOpcode opcode => exact reads_byte.bind_variant? (fun _ => rfl) hj
      | custom text => exact reads_text.bind_variant? (fun _ => rfl) hj }

instance : LawfulDocument InsufficientFunds where
  reads := by
    refine .of_record ["requested", "available"] (fun _ => rfl) (by decide) (fun f => ?_)
      fun f doc hdoc j hfields => ?_
    · simp only [List.forall_mem_cons]
      exact ⟨reads_word.plain _, reads_word.plain _, nofun⟩
    · simp only [List.forall_mem_cons] at hdoc
      obtain ⟨hrequested, havailable, -⟩ := hdoc
      show (fields? _ j).bind _ = _
      simp only [hfields, List.map_cons, List.map_nil, Option.bind_some, Slot.required,
        reads_word.read _ hrequested, reads_word.read _ havailable]
      rfl

instance : LawfulDocument CallError where
  reads := by
    -- What is missing is `null` behind the name of the case, so the case still carries something.
    have hdetail : Reads (nullable? Document.ofJson?)
        (ofOption (Document.toJson : InsufficientFunds → _)) :=
      LawfulDocument.reads.nullable fun _ => nofun
    refine { plain := fun e => ?_, read := fun e j hj => ?_ }
    · cases e with
      | depthExceeded | codeSizeExceeded | codeStoreOutOfGas => exact .text _
      | insufficientBalance detail => exact ofVariant_plain _ (hdetail.plain detail)
      | fault f => exact ofVariant_plain _ (LawfulDocument.reads.plain f)
      | internal e => exact ofVariant_plain _ (LawfulDocument.reads.plain e)
    · show (variant? j).bind _ = _
      cases e with
      | depthExceeded | codeSizeExceeded | codeStoreOutOfGas => exact bind_variant?_text rfl hj
      | insufficientBalance detail => exact hdetail.bind_variant? (fun _ => rfl) hj
      | fault f => exact LawfulDocument.reads.bind_variant? (fun _ => rfl) hj
      | internal e => exact LawfulDocument.reads.bind_variant? (fun _ => rfl) hj

/-! ### Texts -/

namespace Document

/-- **A value is read back from its text.** `reordered` is about writers that put the members of
objects in other orders: fields as they are declared, the entries of a map as they come. -/
structure RoundTrips (α : Type) [Document α] : Prop where
  rendered : ∀ a : α, read? (render a) = some a
  reordered : ∀ (a : α) (j : Json), (toJson a).Reorders j → read? j.render = some a

theorem RoundTrips.of_lawful (α : Type) [Document α] [LawfulDocument α] : RoundTrips α := by
  have hread : ∀ (a : α) (j : Json), (toJson a).Reorders j → read? j.render = some a := by
    intro a j hj
    have hplain : j.Plain := (LawfulDocument.reads.plain a).reorders hj
    calc read? j.render
        _ = (some j).bind ofJson? := by rw [read?, hplain.read?_render]
        _ = some a := LawfulDocument.reads.read a hj
  exact { rendered := fun a => hread a _ (.refl _), reordered := hread }

/-- **All documents are read back.** Every account, update, cache entry, header, configuration,
fork, limit and error comes back from the text of its document as it was, with the orders in which
the members of objects are written left open. -/
theorem round_trips :
    RoundTrips AccountInfo ∧ RoundTrips StoredAccount ∧ RoundTrips AccountUpdate ∧
      RoundTrips CachedAccount ∧ RoundTrips BlockHeader ∧ RoundTrips ChainConfig ∧
      RoundTrips Fork ∧ RoundTrips Limits ∧ RoundTrips CallError :=
  ⟨.of_lawful _, .of_lawful _, .of_lawful _, .of_lawful _, .of_lawful _, .of_lawful _,
    .of_lawful _, .of_lawful _, .of_lawful _⟩

end Document

end MessageCall
