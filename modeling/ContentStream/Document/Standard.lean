import ContentStream.Document.Filter
import ContentStream.Document.Library
import ContentStream.Document.PageTree

/-!
# A library

The library that walks the page tree and decodes data as told in the modules before.  It
says of filters that it does not know what it is given to say.
-/

namespace ContentStream

def Library.standard (unknownFilter : String) : Library where
  referenceLimit := Table.referenceLimit
  object? table id := table.follow Table.referenceLimit id
  pages := Table.leaves
  isEncrypted := Table.isEncrypted
  decoded := Filter.decode unknownFilter
  decodingNotices := Filter.notices
  object?_eq_some_iff := Table.follow_eq_some_iff
  exists_dictionary_of_mem_pages := Table.exists_dictionary_of_mem_leaves

end ContentStream
