import AddonWatch.Cluster.Format

namespace AddonWatch.Cluster

/-- Which objects are asked for, and how many of them at a time. -/
structure Selection where
  labels : Option String := none
  fields : Option String := none
  pageSize : Nat := 500
deriving DecidableEq, Repr, Inhabited

namespace Selection

/-- Narrows the selection to the object of that name. -/
def named (name : String) (selection : Selection) : Selection :=
  { selection with fields := some ("metadata.name=" ++ name) }

def selectors (selection : Selection) : List (String × String) :=
  (selection.labels.map ("labelSelector", ·)).toList ++
    (selection.fields.map ("fieldSelector", ·)).toList

/-- The parameters that ask for one page, where `token` tells how the pages go on. -/
def pageParameters (selection : Selection) (token : Option String) : List (String × String) :=
  selection.selectors ++ [("limit", toString selection.pageSize)] ++
    (token.map ("continue", ·)).toList

/-- The parameters that ask for everything that happens after `version`. -/
def watchParameters (selection : Selection) (version : String) : List (String × String) :=
  [("watch", "true"), ("timeoutSeconds", "290")] ++ selection.selectors ++
    [("allowWatchBookmarks", "true"), ("resourceVersion", version)]

end Selection

/-- What a page of objects says about itself. An empty token or version is none. -/
structure PageHead where
  token : Option String := none
  version : Option String := none
deriving DecidableEq, Repr, Inhabited

/-- A page of a list of objects. -/
structure Page (α : Type) where
  head : PageHead := {}
  objects : List α := []

namespace PageHead

/-- Takes over one member; a later one replaces an earlier one, and unknown ones are passed over. -/
def put (head : PageHead) (m : String × Json) : Except Flaw PageHead :=
  match m.1 with
  | "continue" =>
    (m.2.optional Json.text).map fun v => { head with token := v.filter (· ≠ "") }
  | "resourceVersion" =>
    (m.2.optional Json.text).map fun v => { head with version := v.filter (· ≠ "") }
  | "remainingItemCount" => (m.2.optional Json.generation).map fun _ => head
  | "selfLink" => (m.2.optional Json.text).map fun _ => head
  | _ => m.2.pass.map fun _ => head

def decode : Json → Except Flaw PageHead :=
  Json.takeMembers put {}

end PageHead

namespace Page

variable {α : Type}

def put (format : Format α) (page : Page α) (m : String × Json) : Except Flaw (Page α) :=
  match m.1 with
  | "metadata" => (PageHead.decode m.2).map fun v => { page with head := v }
  | "items" =>
    (m.2.optional (Json.list format.decode)).map fun v => { page with objects := v.getD [] }
  | _ => m.2.keep.map fun _ => page

/-- A page has metadata and lists its items, or null in place of none; what it holds besides is
kept. -/
def decode (format : Format α) : Json → Except Flaw (Page α)
  | .obj members => do
    let (page, given) ← Json.takeFields ["metadata", "items"] (put format) {} (.obj members)
    Json.require ["metadata", "items"] given
    return page
  | document => document.refuse

end Page

end AddonWatch.Cluster
