import MessageCall.Account
import MessageCall.Json.Fields

/-!
# Documents of accounts

Field names are written with underscores. Counts are numbers, words and hashes are hexadecimal
text, and storage is an object from hashes to words. In an update the code is an array of numbers,
and a missing info or code is `null`.
-/

namespace MessageCall

open Json

/-- Reads storage: an object from hashes to words. -/
def storage? : Json → Option (WordMap 256 Word) := map? HexField.hash? word?

/-- The document of storage. -/
def ofStorage : WordMap 256 Word → Json := ofMap Hex.hash ofWord

instance : Document AccountInfo where
  toJson a := .record [
    ("code_hash", ofHash a.codeHash),
    ("balance", ofWord a.balance),
    ("nonce", ofCount a.nonce)]
  ofJson? j := do
    let [codeHash, balance, nonce] ← fields? ["code_hash", "balance", "nonce"] j | none
    return {
      codeHash := ← codeHash.required hash?
      balance := ← balance.required word?
      nonce := ← nonce.required count? }

instance : Document StoredAccount where
  toJson a := .record [
    ("nonce", ofCount a.nonce),
    ("balance", ofWord a.balance),
    ("storage_root", ofHash a.storageRoot),
    ("code_hash", ofHash a.codeHash)]
  ofJson? j := do
    let [nonce, balance, storageRoot, codeHash] ←
      fields? ["nonce", "balance", "storage_root", "code_hash"] j | none
    return {
      nonce := ← nonce.required count?
      balance := ← balance.required word?
      storageRoot := ← storageRoot.required hash?
      codeHash := ← codeHash.required hash? }

/-- The name of a status. -/
def AccountStatus.name : AccountStatus → String
  | .unmodified => "Unmodified"
  | .modified => "Modified"
  | .created => "Created"

instance : Document AccountStatus where
  toJson s := .text s.name
  ofJson? j := do
    let (name, payload) ← variant? j
    if isUnit payload then
      [AccountStatus.unmodified, .modified, .created].find? fun s => s.name = name
    else none

instance : Document CachedAccount where
  toJson a := .record [
    ("info", Document.toJson a.info),
    ("storage", ofStorage a.storage),
    ("exists", .bool a.present),
    ("status", Document.toJson a.status)]
  ofJson? j := do
    let [info, storage, present, status] ← fields? ["info", "storage", "exists", "status"] j | none
    return {
      info := ← info.required Document.ofJson?
      storage := ← storage.required storage?
      present := ← present.required bool?
      status := ← status.required Document.ofJson? }

instance : Document AccountUpdate where
  toJson u := .record [
    ("address", ofAddress u.address),
    ("info", ofOption Document.toJson u.info),
    ("code", ofOption ofByteArray u.code),
    ("removed_storage", .bool u.removedStorage),
    ("added_storage", ofStorage u.addedStorage)]
  ofJson? j := do
    let [address, info, code, removedStorage, addedStorage] ←
      fields? ["address", "info", "code", "removed_storage", "added_storage"] j | none
    return {
      address := ← address.required address?
      info := ← info.optional Document.ofJson?
      code := ← code.optional byteArray?
      removedStorage := ← removedStorage.required bool?
      addedStorage := ← addedStorage.required storage? }

end MessageCall
