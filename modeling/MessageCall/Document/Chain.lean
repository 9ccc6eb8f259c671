import MessageCall.Chain.Genesis
import MessageCall.Json.Fields
import MessageCall.Limits

/-!
# Documents of chains

Field names start in lower case and join words by capitals. In a block header the counts are
hexadecimal text. In a genesis and its accounts the quantities are read from text, hexadecimal or
decimal, but the counts are written as numbers. Most fields of a genesis have defaults; its
configuration, its allocation and the balance of every account have none.

The limits may be left out one by one, each with its own default.
-/

namespace MessageCall

open Json

instance : Document Fork where
  toJson f := .text f.name
  ofJson? j := do
    let (name, payload) ← variant? j
    if isUnit payload then Fork.all.find? fun f => f.name = name else none

instance : Document ChainConfig where
  toJson c := .record [
    ("chainId", ofCount c.chainId),
    ("homesteadBlock", ofOption ofCount c.homesteadBlock),
    ("eip150Block", ofOption ofCount c.eip150Block),
    ("eip155Block", ofOption ofCount c.eip155Block),
    ("eip158Block", ofOption ofCount c.eip158Block),
    ("byzantiumBlock", ofOption ofCount c.byzantiumBlock)]
  ofJson? j := do
    let [chainId, homestead, eip150, eip155, eip158, byzantium] ←
      fields? ["chainId", "homesteadBlock", "eip150Block", "eip155Block", "eip158Block",
        "byzantiumBlock"] j | none
    return {
      chainId := ← chainId.defaulted 0 count?
      homesteadBlock := ← homestead.defaulted none (nullable? count?)
      eip150Block := ← eip150.defaulted none (nullable? count?)
      eip155Block := ← eip155.defaulted none (nullable? count?)
      eip158Block := ← eip158.defaulted none (nullable? count?)
      byzantiumBlock := ← byzantium.defaulted none (nullable? count?) }

/-- The document of a count as hexadecimal text. -/
def ofHexCount (n : UInt64) : Json := .text (Quantity.ofCount n)

instance : Document BlockHeader where
  toJson h := .record [
    ("parentHash", ofHash h.parentHash),
    ("coinbase", ofAddress h.coinbase),
    ("difficulty", ofWord h.difficulty),
    ("number", ofHexCount h.number),
    ("gasLimit", ofHexCount h.gasLimit),
    ("timestamp", ofHexCount h.timestamp)]
  ofJson? j := do
    let [parentHash, coinbase, difficulty, blockNumber, gasLimit, timestamp] ←
      fields? ["parentHash", "coinbase", "difficulty", "number", "gasLimit", "timestamp"] j | none
    return {
      parentHash := ← parentHash.required hash?
      coinbase := ← coinbase.required address?
      difficulty := ← difficulty.required word?
      number := ← blockNumber.required (quantity? Quantity.hexCount)
      gasLimit := ← gasLimit.required (quantity? Quantity.hexCount)
      timestamp := ← timestamp.required (quantity? Quantity.hexCount) }

instance : Document GenesisAccount where
  toJson a := .record [
    ("code", .text (Quantity.ofBytes a.code)),
    ("storage", ofMap Quantity.ofWord ofWord a.storage),
    ("balance", ofWord a.balance),
    ("nonce", ofCount a.nonce)]
  ofJson? j := do
    let [code, storage, balance, nonce] ← fields? ["code", "storage", "balance", "nonce"] j | none
    return {
      code := ← code.defaulted [] (quantity? Quantity.bytes)
      storage := ← storage.defaulted ∅ (map? HexField.word? word?)
      balance := ← balance.required (quantity? Quantity.word)
      nonce := ← nonce.defaulted 0 (quantity? Quantity.count) }

instance : Document Genesis where
  toJson g := .record [
    ("config", Document.toJson g.config),
    ("alloc", ofMap Hex.address Document.toJson g.alloc),
    ("coinbase", ofAddress g.coinbase),
    ("difficulty", ofWord g.difficulty),
    ("gasLimit", ofCount g.gasLimit),
    ("timestamp", ofCount g.timestamp)]
  ofJson? j := do
    let [config, alloc, coinbase, difficulty, gasLimit, timestamp] ←
      fields? ["config", "alloc", "coinbase", "difficulty", "gasLimit", "timestamp"] j | none
    return {
      config := ← config.required Document.ofJson?
      alloc := ← alloc.required (map? HexField.address? Document.ofJson?)
      coinbase := ← coinbase.defaulted 0 address?
      difficulty := ← difficulty.defaulted 0 (quantity? Quantity.word)
      gasLimit := ← gasLimit.defaulted 0 (quantity? Quantity.count)
      timestamp := ← timestamp.defaulted 0 (quantity? Quantity.count) }

instance : Document Limits where
  toJson l := .record [
    ("maxCallDepth", ofCount l.maxCallDepth),
    ("maxCodeSize", ofCount l.maxCodeSize),
    ("createDataGas", ofCount l.createDataGas),
    ("noRecursion", .bool l.noRecursion)]
  ofJson? j := do
    let [maxCallDepth, maxCodeSize, createDataGas, noRecursion] ←
      fields? ["maxCallDepth", "maxCodeSize", "createDataGas", "noRecursion"] j | none
    let base : Limits := {}
    return {
      maxCallDepth := ← maxCallDepth.defaulted base.maxCallDepth count?
      maxCodeSize := ← maxCodeSize.defaulted base.maxCodeSize count?
      createDataGas := ← createDataGas.defaulted base.createDataGas count?
      noRecursion := ← noRecursion.defaulted base.noRecursion bool? }

end MessageCall
