import MessageCall.Proofs.Document.RoundTrip
import MessageCall.Proofs.Text.Quantities

/-!
# Documents of a genesis are not read back

A genesis and its accounts have documents, and readers for them, but the two do not fit. The counts
are read as text, hexadecimal or decimal, and are written as numbers. No text is a number, and so
what is written for a genesis is read back as nothing at all, whatever the genesis holds: the nonce
of every account and the gas limit and the time stamp of the block are always written.

The counts are the only fields that do not fit. `GenesisAccount.document` and `Genesis.document` are
the same documents with the way of writing counts left open, and a document is read back as soon as
the reader of counts takes what is written for them (`reads_genesisAccount`, `reads_genesis`). So it
is with the hexadecimal texts that the header of a block has for the same counts. What both need is
one step: a document is read as the value it was written for but for the counts, and these are what
their own documents are read as.
-/

namespace MessageCall

open Json

/-! ### Quantities in documents -/

theorem reads_quantityWord : Reads (quantity? Quantity.word) ofWord :=
  .spelled fun w => by rw [Quantity.word_ofWord]; rfl

theorem reads_quantityCount : Reads (quantity? Quantity.count) ofHexCount :=
  .spelled fun n => by rw [Quantity.count_ofCount]; rfl

theorem reads_quantityBytes :
    Reads (quantity? Quantity.bytes) fun bs => .text (Quantity.ofBytes bs) :=
  .spelled fun bs => by rw [Quantity.bytes_ofBytes]; rfl

/-- A number is no text, and no quantity is read from it. -/
theorem quantity?_ofCount {α : Type} (read : List Char → Except QuantityError α) (n : UInt64)
    {j : Json} (h : (ofCount n).Reorders j) : quantity? read j = none := by
  rw [h.eq_of_atom nofun nofun]
  rfl

/-! ### Documents with counts left open -/

variable {count : UInt64 → Json} {j : Json}

/-- The document of an allocated account, its nonce written by `count`. -/
def GenesisAccount.document (count : UInt64 → Json) (a : GenesisAccount) : Json := .record [
  ("code", .text (Quantity.ofBytes a.code)),
  ("storage", ofMap Quantity.ofWord ofWord a.storage),
  ("balance", ofWord a.balance),
  ("nonce", count a.nonce)]

/-- The document of a genesis, all counts but those of the configuration written by `count`. -/
def Genesis.document (count : UInt64 → Json) (g : Genesis) : Json := .record [
  ("config", Document.toJson g.config),
  ("alloc", ofMap Hex.address (GenesisAccount.document count) g.alloc),
  ("coinbase", ofAddress g.coinbase),
  ("difficulty", ofWord g.difficulty),
  ("gasLimit", count g.gasLimit),
  ("timestamp", count g.timestamp)]

theorem GenesisAccount.document_ofCount (a : GenesisAccount) :
    a.document ofCount = Document.toJson a := rfl

theorem Genesis.document_ofCount (g : Genesis) : g.document ofCount = Document.toJson g := rfl

theorem GenesisAccount.document_plain (h : ∀ n, (count n).Plain) (a : GenesisAccount) :
    (a.document count).Plain := by
  refine record_plain ?_
  simp only [List.forall_mem_cons]
  exact ⟨.text _, ofMap_plain reads_word.plain _ _, reads_word.plain _, h _,
    List.forall_mem_nil _⟩

theorem Genesis.document_plain (h : ∀ n, (count n).Plain) (g : Genesis) :
    (g.document count).Plain := by
  refine record_plain ?_
  simp only [List.forall_mem_cons]
  exact ⟨LawfulDocument.reads.plain _, ofMap_plain (GenesisAccount.document_plain h) _ _,
    reads_address.plain _, reads_word.plain _, h _, h _, List.forall_mem_nil _⟩

/-- **An account is read but for its nonce**, which is what its own document is read as. -/
theorem GenesisAccount.ofJson?_document {a : GenesisAccount} (h : (a.document count).Reorders j) :
    ∃ nonce, (count a.nonce).Reorders nonce ∧
      Document.ofJson? j = (do
        let n ← quantity? Quantity.count nonce
        return { a with nonce := n }) := by
  obtain ⟨doc, hfields, hdoc⟩ := fields?_record (by simp) h
  simp only [List.forall_mem_cons] at hdoc
  obtain ⟨hcode, hstorage, hbalance, hnonce, -⟩ := hdoc
  have hstorage' := (reads_word.map HexField.word?_ofWord).read _ hstorage
  refine ⟨doc "nonce", hnonce, ?_⟩
  show (fields? _ j).bind _ = _
  simp only [List.map_cons, List.map_nil] at hfields
  simp only [hfields, Option.bind_some, Slot.required, Slot.defaulted,
    reads_quantityBytes.read _ hcode, hstorage', reads_quantityWord.read _ hbalance]
  rfl

/-- **A genesis is read but for its counts**, and its accounts are what their documents are read
as. -/
theorem Genesis.ofJson?_document {g : Genesis} (h : (g.document count).Reorders j) :
    ∃ alloc gasLimit timestamp,
      (ofMap Hex.address (GenesisAccount.document count) g.alloc).Reorders alloc ∧
      (count g.gasLimit).Reorders gasLimit ∧ (count g.timestamp).Reorders timestamp ∧
      Document.ofJson? j = (do
        let accounts ← map? HexField.address? Document.ofJson? alloc
        let limit ← quantity? Quantity.count gasLimit
        let time ← quantity? Quantity.count timestamp
        return { g with alloc := accounts, gasLimit := limit, timestamp := time }) := by
  -- The fields are found under their names, wherever they stand.
  obtain ⟨doc, hfields, hdoc⟩ := fields?_record (by simp) h
  simp only [List.forall_mem_cons] at hdoc
  obtain ⟨hconfig, halloc, hcoinbase, hdifficulty, hgasLimit, htimestamp, -⟩ := hdoc
  refine ⟨doc "alloc", doc "gasLimit", doc "timestamp", halloc, hgasLimit, htimestamp, ?_⟩
  -- All fields but the three are read back, so the document is what those three make of it.
  show (fields? _ j).bind _ = _
  simp only [List.map_cons, List.map_nil] at hfields
  simp only [hfields, Option.bind_some, Slot.required, Slot.defaulted,
    LawfulDocument.reads.read _ hconfig, reads_address.read _ hcoinbase,
    reads_quantityWord.read _ hdifficulty]
  rfl

/-! ### Counts that are read -/

theorem reads_genesisAccount (h : Reads (quantity? Quantity.count) count) :
    Reads Document.ofJson? (GenesisAccount.document count) where
  plain := GenesisAccount.document_plain h.plain
  read a j hj := by
    obtain ⟨nonce, hnonce, hread⟩ := GenesisAccount.ofJson?_document hj
    rw [hread, h.read _ hnonce]
    rfl

theorem reads_genesis (h : Reads (quantity? Quantity.count) count) :
    Reads Document.ofJson? (Genesis.document count) where
  plain := Genesis.document_plain h.plain
  read g j hj := by
    obtain ⟨alloc, gasLimit, timestamp, halloc, hgasLimit, htimestamp, hread⟩ :=
      Genesis.ofJson?_document hj
    rw [hread, ((reads_genesisAccount h).map HexField.address?_address).read _ halloc,
      h.read _ hgasLimit, h.read _ htimestamp]
    rfl

/-! ### Counts that are not -/

theorem GenesisAccount.ofJson?_eq_none {a : GenesisAccount}
    (h : (Document.toJson a).Reorders j) : (Document.ofJson? j : Option GenesisAccount) = none := by
  rw [← document_ofCount] at h
  obtain ⟨nonce, hnonce, hread⟩ := ofJson?_document h
  rw [hread, quantity?_ofCount _ _ hnonce]
  rfl

theorem Genesis.ofJson?_eq_none {g : Genesis} (h : (Document.toJson g).Reorders j) :
    (Document.ofJson? j : Option Genesis) = none := by
  rw [← document_ofCount] at h
  obtain ⟨alloc, gasLimit, timestamp, -, hgasLimit, -, hread⟩ := ofJson?_document h
  rw [hread, quantity?_ofCount _ _ hgasLimit]
  -- Whether or not the accounts are read, the gas limit is not.
  cases map? HexField.address? (Document.ofJson? : Json → Option GenesisAccount) alloc <;> rfl

/-! ### Texts -/

namespace Document

/-- The text of a plain document is read as the document is. -/
theorem read?_render_of_plain {α : Type} [Document α] (h : j.Plain) :
    (read? j.render : Option α) = ofJson? j := by
  rw [read?, h.read?_render, Option.bind_some]

/-- **A genesis is not read back**, and no account of one is, whatever they hold and in whatever
order their members are written. With the counts as hexadecimal text both are. -/
theorem genesis_not_read_back (a : GenesisAccount) (g : Genesis) :
    (∀ j, (toJson a).Reorders j → (read? j.render : Option GenesisAccount) = none) ∧
    (∀ j, (toJson g).Reorders j → (read? j.render : Option Genesis) = none) ∧
    (∀ j, (a.document ofHexCount).Reorders j → read? j.render = some a) ∧
    (∀ j, (g.document ofHexCount).Reorders j → read? j.render = some g) := by
  have hread := reads_quantityCount
  refine ⟨fun j hj => ?_, fun j hj => ?_, fun j hj => ?_, fun j hj => ?_⟩
  · rw [read?_render_of_plain ((a.document_plain reads_count.plain).reorders hj)]
    exact GenesisAccount.ofJson?_eq_none hj
  · rw [read?_render_of_plain ((g.document_plain reads_count.plain).reorders hj)]
    exact Genesis.ofJson?_eq_none hj
  · rw [read?_render_of_plain ((a.document_plain hread.plain).reorders hj)]
    exact (reads_genesisAccount hread).read a hj
  · rw [read?_render_of_plain ((g.document_plain hread.plain).reorders hj)]
    exact (reads_genesis hread).read g hj

/-- The account that holds nothing has a text, and no account is read from it. -/
theorem account_not_read_back :
    render ({ balance := 0 } : GenesisAccount) =
        "\x7b\"balance\":\"0x0\",\"code\":\"0x\",\"nonce\":0,\"storage\":\x7b\x7d\x7d" ∧
      (read? "\x7b\"balance\":\"0x0\",\"code\":\"0x\",\"nonce\":0,\"storage\":\x7b\x7d\x7d" :
        Option GenesisAccount) = none := by
  have htext : render ({ balance := 0 } : GenesisAccount) =
      "\x7b\"balance\":\"0x0\",\"code\":\"0x\",\"nonce\":0,\"storage\":\x7b\x7d\x7d" := rfl
  refine ⟨htext, ?_⟩
  have hplain : (toJson ({ balance := 0 } : GenesisAccount)).Plain :=
    GenesisAccount.document_plain reads_count.plain _
  rw [← htext, render, read?_render_of_plain hplain]
  exact GenesisAccount.ofJson?_eq_none (.refl _)

end Document

end MessageCall
