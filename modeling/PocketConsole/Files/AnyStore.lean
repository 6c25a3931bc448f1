import PocketConsole.Files.Folder

namespace PocketConsole

/-- A store of one of the kinds there are. -/
inductive AnyStore
  | forgetful
  | shelf (s : Shelf)
  | folder (s : Folder)

instance : Store AnyStore where
  get
    | .forgetful, key => Store.get Forgetful.forgetful key
    | .shelf s, key => Store.get s key
    | .folder s, key => Store.get s key
  set
    | .forgetful, _, _ => .forgetful
    | .shelf s, key, text => .shelf (Store.set s key text)
    | .folder s, key, text => .folder (Store.set s key text)
  remark
    | .forgetful, key => Store.remark Forgetful.forgetful key
    | .shelf s, key => Store.remark s key
    | .folder s, key => Store.remark s key
  complaint
    | .forgetful, key, text => Store.complaint Forgetful.forgetful key text
    | .shelf s, key, text => Store.complaint s key text
    | .folder s, key, text => Store.complaint s key text

end PocketConsole
