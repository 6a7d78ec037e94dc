import Bazaar.Python.Str
import Bazaar.Bencode.Encode
import Bazaar.Bencode.Decode
import Bazaar.Bencode.RoundTrip
import Bazaar.Bencode.Malformed
import Bazaar.Bencode.Canonical
import Bazaar.Changeset.PosixPath
import Bazaar.Changeset.Tree
import Bazaar.Changeset.Termination
import Bazaar.Changeset.Renames
import Bazaar.Changeset.Ids
import Bazaar.Changeset.Contents
import Bazaar.Changeset.Reader
import Bazaar.Changeset.ReaderRuns
import Bazaar.Changeset.ReaderFile
import Bazaar.Changeset.ReaderTermination
import Bazaar.Bzrlib.Option
import Bazaar.Fastimport.RevisionStore
import Bazaar.Fastimport.TreeShim
import Bazaar.Fastimport.Repository
import Bazaar.Fastimport.Load
