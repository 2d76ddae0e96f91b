import NcsProjects.TransitionRuns
import NcsProjects.Semaphores
import NcsProjects.HidUsbToken
import NcsProjects.HidKeyRelease
import NcsProjects.HidEventOrder
import NcsProjects.PublishFraming
import NcsProjects.ConfigDelivery
import NcsProjects.GcloudRecovery
import NcsProjects.GcloudConnectCommand
import NcsProjects.GcloudConnectResult
import NcsProjects.GcloudMutexOwner
import NcsProjects.GcloudSelfWait
import NcsProjects.GcloudTls
import NcsProjects.GcloudCredential
import NcsProjects.GcloudPacketIds
import NcsProjects.GcloudPayloads
import NcsProjects.GcloudSoleSession
import NcsProjects.MqttWorkWait
import NcsProjects.MqttWorkTokens
import NcsProjects.MqttWorkTransport
import NcsProjects.PayloadReassembly
import NcsProjects.MessageHeap
import NcsProjects.GcloudSubscription
import NcsProjects.GcloudPublishOrder
import NcsProjects.BrokerLookup
import NcsProjects.ScanFilter
import NcsProjects.KernelMsgqRuns
import NcsProjects.KernelTimeouts
import NcsProjects.MqttBroker
import NcsProjects.MqttCauses
import NcsProjects.MqttDelivery
import NcsProjects.MqttKeepalive
import NcsProjects.MessageObjects
