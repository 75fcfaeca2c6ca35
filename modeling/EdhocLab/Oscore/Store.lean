import EdhocLab.Oscore.Context

/-! # Installed contexts

The security contexts of an endpoint, one for each URI.
-/
namespace EdhocLab.Oscore

abbrev Store := List (String × Context)

namespace Store

def get? (store : Store) (uri : String) : Option Context := store.lookup uri

/-- Removes the context of a URI. -/
def erase (store : Store) (uri : String) : Store := store.filter fun entry => entry.1 != uri

/-- Installs a context for a URI in place of an older one. -/
def insert (store : Store) (uri : String) (context : Context) : Store :=
  match store with
  | [] => [(uri, context)]
  | entry :: rest =>
    if entry.1 = uri then (uri, context) :: rest else entry :: insert rest uri context

/-- Whether any context opens messages with this identifier. -/
def hasRecipientId (store : Store) (id : Bytes) : Bool :=
  store.any fun entry => entry.2.recipientId == id

/-- Runs an operation on the context of a URI and keeps the context after it. -/
def withContext {α : Type} (store : Store) (uri : String)
    (run : Context → Except Error α × Context) : Except Error α × Store :=
  match store.get? uri with
  | none => (.error (.unknownContext uri), store)
  | some context =>
    let (result, context) := run context
    (result, store.insert uri context)

end Store

end EdhocLab.Oscore
